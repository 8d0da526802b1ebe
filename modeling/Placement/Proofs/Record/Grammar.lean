import Placement.Job
import Placement.Proofs.Json.Proper
import Placement.Proofs.Record.Shape
import Placement.System
/-
  The grammar of records. `Cell.Spelled cells v`: the value `v` is an object that holds each field
  under its key, in any order and among any other members, or an array of the fields in their order;
  a field with a default may be left out of the object, or off the end of the array.

  * `Describes.decode`: what a shape decodes is exactly the record that the value spells, given a
    proper value (`Json.Proper`) and a consistent shape; `Describes.field` builds it up column by
    column.
  * `Job.decode_shape`, `System.decode_shape`, `Status.decode_shape`: the three records.
  * `Renames.used?_eq_some`: the old name that is reported is the first of its table.
-/
namespace Placement

/-! ## Spellings -/

/-- A field of a record at hand. -/
structure Cell where
  key : String
  /-- The values that the field is written as. -/
  spelled : Json → Prop
  /-- An object that lacks the key says the same. -/
  absent : Prop
  /-- So does an array that ends before the field. -/
  omitted : Prop

namespace Cell

/-- A field that must be there. -/
def required (key : String) (spelled : Json → Prop) : Cell := ⟨key, spelled, False, False⟩

/-- A field that may be left out when it has its default. -/
def defaulted (key : String) (spelled : Json → Prop) (isDefault : Prop) : Cell :=
  ⟨key, spelled, isDefault, isDefault⟩

/-- Members hold a field. -/
def InMembers (cell : Cell) (members : Json.Members) : Prop :=
  match members.find? cell.key with
  | some v => cell.spelled v
  | none => cell.absent

/-- A field stands at the front of items and leaves the rest. -/
def Heads (cell : Cell) (items rest : List Json) : Prop :=
  (∃ v, items = v :: rest ∧ cell.spelled v) ∨ (items = [] ∧ rest = [] ∧ cell.omitted)

/-- Fields stand at the front of items, one after another, and leave the rest. -/
def Head : List Cell → List Json → List Json → Prop
  | [], items, rest => items = rest
  | cell :: cells, items, rest => ∃ more, cell.Heads items more ∧ Head cells more rest

/-- A value spells fields: as an object, or as an array in their order. -/
def Spelled (cells : List Cell) : Json → Prop
  | .object members => ∀ cell ∈ cells, cell.InMembers members
  | .array items => Head cells items []
  | _ => False

theorem head_snoc (cells : List Cell) (cell : Cell) (items rest : List Json) :
    Head (cells ++ [cell]) items rest ↔ ∃ more, Head cells items more ∧ cell.Heads more rest := by
  induction cells generalizing items with
  | nil =>
    show (∃ more, cell.Heads items more ∧ more = rest) ↔ ∃ more, items = more ∧ cell.Heads more rest
    simp
  | cons first others ih =>
    show (∃ more, first.Heads items more ∧ Head (others ++ [cell]) more rest) ↔
      ∃ more, (∃ mid, first.Heads items mid ∧ Head others mid more) ∧ cell.Heads more rest
    simp only [ih]
    constructor
    · rintro ⟨mid, hfirst, more, hothers, hcell⟩
      exact ⟨more, ⟨mid, hfirst, hothers⟩, hcell⟩
    · rintro ⟨more, ⟨mid, hfirst, hothers⟩, hcell⟩
      exact ⟨mid, hfirst, more, hothers, hcell⟩

end Cell

/-! ## Shapes -/

namespace Shape

variable {α β τ : Type}

/-- A shape reads what is made of a row of values exactly where their fields are spelled. -/
structure Describes (s : Shape α) (make : τ → α) (cells : τ → List Cell) : Prop where
  ofMembers : ∀ members a, s.ofMembers members = .ok a ↔
    ∃ t, a = make t ∧ ∀ cell ∈ cells t, cell.InMembers members
  ofItems : ∀ name size items a rest, s.ofItems name size items = .ok (a, rest) ↔
    ∃ t, a = make t ∧ Cell.Head (cells t) items rest

theorem describes_empty (a : α) : (empty a).Describes (fun _ : Unit => a) fun _ => [] where
  ofMembers members b := by
    show Except.ok a = .ok b ↔ _
    simp [eq_comm]
  ofItems name size items b rest := by
    show Except.ok (a, items) = .ok (b, rest) ↔ ∃ _ : Unit, b = a ∧ items = rest
    simp [eq_comm]

/-- One more field: its value is read exactly where it is spelled. -/
theorem Describes.field {s : Shape (α → β)} {make : τ → α → β} {cells : τ → List Cell}
    (h : s.Describes make cells) {key : String} {read : Json → Except Fault α}
    {absent omitted : Option α} (cell : α → Cell) (hkey : ∀ a, (cell a).key = key)
    (hread : ∀ v a, read v = .ok a ↔ (cell a).spelled v)
    (habsent : ∀ a, absent = some a ↔ (cell a).absent)
    (homitted : ∀ a, omitted = some a ↔ (cell a).omitted) :
    (s.field key read absent omitted).Describes (fun t : τ × α => make t.1 t.2)
      fun t => cells t.1 ++ [cell t.2] where
  ofMembers members b := by
    have hcell : ∀ a, (cell a).InMembers members ↔
        match members.find? key with
        | some v => read v = .ok a
        | none => absent = some a := by
      intro a
      unfold Cell.InMembers
      rw [hkey]
      cases members.find? key with
      | some v => exact (hread v a).symm
      | none => exact (habsent a).symm
    rw [ofMembers_field_eq_ok]
    simp only [h.ofMembers, List.forall_mem_append, List.forall_mem_singleton, hcell]
    constructor
    · rintro ⟨_, a, ⟨t, rfl, ht⟩, rfl, ha⟩
      exact ⟨(t, a), rfl, ht, ha⟩
    · rintro ⟨⟨t, a⟩, rfl, ht, ha⟩
      exact ⟨make t, a, ⟨t, rfl, ht⟩, rfl, ha⟩
  ofItems name size items b rest := by
    have hcell : ∀ more a, (cell a).Heads more rest ↔
        (∃ v, more = v :: rest ∧ read v = .ok a) ∨ more = [] ∧ rest = [] ∧ omitted = some a := by
      intro more a
      unfold Cell.Heads
      simp only [hread, homitted]
    rw [ofItems_field_eq_ok]
    simp only [h.ofItems, Cell.head_snoc, hcell]
    constructor
    · rintro ⟨_, more, a, ⟨t, rfl, ht⟩, rfl, ha⟩
      exact ⟨(t, a), rfl, more, ht, ha⟩
    · rintro ⟨⟨t, a⟩, rfl, more, ht, ha⟩
      exact ⟨make t, more, a, ⟨t, rfl, ht⟩, rfl, ha⟩

/-- A field that must be there. -/
theorem Describes.required {s : Shape (α → β)} {make : τ → α → β} {cells : τ → List Cell}
    (h : s.Describes make cells) (key : String) {read : Json → Except Fault α}
    {spelled : α → Json → Prop} (hread : ∀ v a, read v = .ok a ↔ spelled a v) :
    (s.required key read).Describes (fun t : τ × α => make t.1 t.2)
      fun t => cells t.1 ++ [.required key (spelled t.2)] :=
  h.field (fun a => .required key (spelled a)) (fun _ => rfl) hread
    (fun _ => iff_of_false nofun id) (fun _ => iff_of_false nofun id)

/-- A field with a default. -/
theorem Describes.defaulted {s : Shape (α → β)} {make : τ → α → β} {cells : τ → List Cell}
    (h : s.Describes make cells) (key : String) {read : Json → Except Fault α} (default : α)
    {spelled : α → Json → Prop} (hread : ∀ v a, read v = .ok a ↔ spelled a v) :
    (s.field key read (some default) (some default)).Describes (fun t : τ × α => make t.1 t.2)
      fun t => cells t.1 ++ [.defaulted key (spelled t.2) (t.2 = default)] :=
  h.field (fun a => .defaulted key (spelled a) (a = default)) (fun _ => rfl) hread
    (fun a => by rw [Option.some.injEq]; exact eq_comm)
    (fun a => by rw [Option.some.injEq]; exact eq_comm)

/-- A record is decoded from a proper value exactly where the value spells it. -/
theorem Describes.decode {s : Shape α} {make : τ → α} {cells : τ → List Cell}
    (h : s.Describes make cells) (hs : s.Consistent) {name : String} {v : Json} (hv : v.Proper)
    {a : α} : s.decode name v = .ok a ↔ ∃ t, a = make t ∧ Cell.Spelled (cells t) v := by
  cases v with
  | object members => rw [decode_object name hs hv.1, h.ofMembers]; rfl
  | array items => rw [decode_array, h.ofItems]; rfl
  | null | bool | number | text =>
    exact iff_of_false nofun fun ⟨_, _, hspelled⟩ => hspelled

/-- The fields as functions of the record. -/
theorem Describes.decode_record {s : Shape α} {make : τ → α} {cells : τ → List Cell}
    (h : s.Describes make cells) (hs : s.Consistent) (fields : α → List Cell) (parts : α → τ)
    (hmake : ∀ a, make (parts a) = a) (hfields : ∀ t, fields (make t) = cells t) (name : String)
    {v : Json} (hv : v.Proper) (a : α) :
    s.decode name v = .ok a ↔ Cell.Spelled (fields a) v := by
  rw [h.decode hs hv]
  constructor
  · rintro ⟨t, rfl, ht⟩
    rw [hfields]
    exact ht
  · intro ha
    refine ⟨parts a, (hmake a).symm, ?_⟩
    rw [← hfields, hmake]
    exact ha

end Shape

/-! ## Values of fields -/

namespace Json

/-- A count is written as an integer that is not negative. -/
def IsCount (n : UInt64) (v : Json) : Prop := v = .number (.natural n)

/-- A double is written as any number that it is nearest to. -/
def IsDouble (x : Float) (v : Json) : Prop := ∃ n, v = .number n ∧ n.toFloat = x

def IsFlag (b : Bool) (v : Json) : Prop := v = .bool b

def IsText (s : String) (v : Json) : Prop := v = .text s

/-- A class is written as the label that it is the class of; no class has an empty label. -/
def IsClass (t : ResourceType) (v : Json) : Prop :=
  ∃ label, v = .text label ∧ ResourceType.ofLabel? label = some t

/-- A value that may be unknown is written as null when it is. -/
def IsNullable {α : Type} (spelled : α → Json → Prop) : Option α → Json → Prop
  | none, v => v = .null
  | some a, v => spelled a v

end Json

theorem readCount_eq_ok (v : Json) (n : UInt64) : readCount v = .ok n ↔ v.IsCount n := by
  unfold Json.IsCount readCount
  split <;> simp_all

theorem readDouble_eq_ok (v : Json) (x : Float) : readDouble v = .ok x ↔ v.IsDouble x := by
  unfold Json.IsDouble readDouble
  split <;> simp_all

theorem readFlag_eq_ok (v : Json) (b : Bool) : readFlag v = .ok b ↔ v.IsFlag b := by
  unfold Json.IsFlag readFlag
  cases v <;> simp

theorem readText_eq_ok (v : Json) (s : String) : readText v = .ok s ↔ v.IsText s := by
  unfold Json.IsText readText
  split <;> simp_all

theorem ResourceType.read_eq_ok (v : Json) (t : ResourceType) :
    ResourceType.read v = .ok t ↔ v.IsClass t := by
  unfold ResourceType.read Json.IsClass
  rw [bind_eq_ok]
  refine exists_congr fun label => and_congr (readText_eq_ok v label) ?_
  cases ofLabel? label with
  | none => exact iff_of_false nofun nofun
  | some t' =>
    show Except.ok t' = .ok t ↔ some t' = some t
    rw [Except.ok.injEq, Option.some.injEq]

/-- What may be unknown is read where it is spelled, if null spells nothing else. -/
theorem nullable_eq_ok {α : Type} {read : Json → Except Fault α} {spelled : α → Json → Prop}
    (hread : ∀ v a, read v = .ok a ↔ spelled a v) (hnull : ∀ a, read .null ≠ .ok a) (v : Json)
    (a : Option α) :
    Shape.optional.nullable read v = .ok a ↔ v.IsNullable spelled a := by
  unfold Shape.optional.nullable
  split
  · cases a with
    | none => exact iff_of_true rfl rfl
    | some a => exact iff_of_false nofun fun ha => hnull a ((hread _ a).mpr ha)
  · rename_i hne
    cases a with
    | none =>
      refine iff_of_false (fun ha => ?_) hne
      cases hr : read v <;> rw [hr] at ha <;> exact nomatch ha
    | some a =>
      show _ ↔ spelled a v
      rw [← hread]
      cases read v with
      | error fault => exact iff_of_false nofun nofun
      | ok a' =>
        show Except.ok (some a') = .ok (some a) ↔ _
        rw [Except.ok.injEq, Option.some.injEq, Except.ok.injEq]

/-! ## Names no longer in use -/

namespace Renames

/-- A value uses none of the old names of a table. -/
def Unused (table : Renames) (v : Json) : Prop := ∀ entry ∈ table, v.get? entry.1 = none

/-- An entry is the first of a table whose old name a value uses. -/
def FirstUsed (table : Renames) (v : Json) (entry : String × String) : Prop :=
  ∃ before after, table = before ++ entry :: after ∧ Unused before v ∧ v.get? entry.1 ≠ none

theorem used?_eq_none {table : Renames} {v : Json} : table.used? v = none ↔ table.Unused v := by
  unfold used? Unused
  cases v with
  | object members => simp [Json.get?]
  | null | bool | number | text | array => simp [Json.get?]

theorem used?_eq_some {table : Renames} {v : Json} {entry : String × String} :
    table.used? v = some entry ↔ table.FirstUsed v entry := by
  unfold used? FirstUsed Unused
  cases v with
  | object members =>
    simp only [Json.get?, List.find?_eq_some_iff_append, Bool.not_eq_true', Option.isSome_eq_false_iff,
      Option.isNone_iff_eq_none]
    constructor
    · rintro ⟨hused, before, after, htable, hbefore⟩
      exact ⟨before, after, htable, hbefore, Option.isSome_iff_ne_none.mp hused⟩
    · rintro ⟨before, after, htable, hbefore, hused⟩
      exact ⟨Option.isSome_iff_ne_none.mpr hused, before, after, htable, hbefore⟩
  | null | bool | number | text | array => simp [Json.get?]

end Renames

/-! ## The records -/

namespace Job

/-- The fields of a job in their order; all must be there. -/
def fields (job : Job) : List Cell := [
  .required "job_id" (Json.IsCount job.id),
  .required "user_id" (Json.IsCount job.user),
  .required "group_id" (Json.IsCount job.group),
  .required "job_type" (Json.IsClass job.type),
  .required "submission_time" (Json.IsDouble job.submitted),
  .required "walltime" (Json.IsDouble job.walltime),
  .required "num_nodes" (Json.IsCount job.nodes),
  .required "needs_gpu" (Json.IsFlag job.needsGpu),
  .required "requested_memory_gb" (Json.IsDouble job.memory),
  .required "requested_storage_gb" (Json.IsDouble job.storage),
  .required "hpc_site" (Json.IsText job.site),
  .required "hpc_system" (Json.IsText job.system)]

theorem consistent_shape : shape.Consistent := by
  unfold shape Shape.required
  iterate 12 apply Shape.Consistent.field
  exact Shape.consistent_empty _

/-- A job is decoded exactly from what spells it. -/
theorem decode_shape {v : Json} (hv : v.Proper) (job : Job) :
    shape.decode "JobDescription" v = .ok job ↔ Cell.Spelled job.fields v := by
  have hshape := Shape.describes_empty Job.mk
    |>.required "job_id" readCount_eq_ok
    |>.required "user_id" readCount_eq_ok
    |>.required "group_id" readCount_eq_ok
    |>.required "job_type" ResourceType.read_eq_ok
    |>.required "submission_time" readDouble_eq_ok
    |>.required "walltime" readDouble_eq_ok
    |>.required "num_nodes" readCount_eq_ok
    |>.required "needs_gpu" readFlag_eq_ok
    |>.required "requested_memory_gb" readDouble_eq_ok
    |>.required "requested_storage_gb" readDouble_eq_ok
    |>.required "hpc_site" readText_eq_ok
    |>.required "hpc_system" readText_eq_ok
  exact hshape.decode_record consistent_shape fields
    (fun j => (((((((((((((), j.id), j.user), j.group), j.type), j.submitted), j.walltime),
      j.nodes), j.needsGpu), j.memory), j.storage), j.site), j.system))
    (fun _ => rfl) (fun _ => rfl) "JobDescription" hv job

end Job

namespace System

/-- The fields of a system in their order. Storage may be left out when it is unbounded, and an
interconnect when it is unknown. -/
def fields (system : System) : List Cell := [
  .required "name" (Json.IsText system.name),
  .required "site" (Json.IsText system.site),
  .required "type" (Json.IsClass system.type),
  .required "num_nodes" (Json.IsCount system.nodes),
  .required "memory_amount_in_gb" (Json.IsDouble system.nodeMemory),
  .defaulted "storage_amount_in_gb" (Json.IsNullable Json.IsDouble system.storage)
    (system.storage = none),
  .required "has_gpu" (Json.IsFlag system.hasGpu),
  .required "node_speed" (Json.IsDouble system.nodeSpeed),
  .defaulted "network_interconnect" (Json.IsNullable Json.IsText system.interconnect)
    (system.interconnect = none)]

theorem consistent_shape : shape.Consistent := by
  unfold shape Shape.required Shape.trailing
  iterate 9 apply Shape.Consistent.field
  exact Shape.consistent_empty _

/-- A system is decoded exactly from what spells it. -/
theorem decode_shape {v : Json} (hv : v.Proper) (system : System) :
    shape.decode "SystemDescription" v = .ok system ↔ Cell.Spelled system.fields v := by
  have hshape := Shape.describes_empty System.mk
    |>.required "name" readText_eq_ok
    |>.required "site" readText_eq_ok
    |>.required "type" ResourceType.read_eq_ok
    |>.required "num_nodes" readCount_eq_ok
    |>.required "memory_amount_in_gb" readDouble_eq_ok
    |>.defaulted "storage_amount_in_gb" none (nullable_eq_ok readDouble_eq_ok nofun)
    |>.required "has_gpu" readFlag_eq_ok
    |>.required "node_speed" readDouble_eq_ok
    |>.defaulted "network_interconnect" none (nullable_eq_ok readText_eq_ok nofun)
  exact hshape.decode_record consistent_shape fields
    (fun s => ((((((((((), s.name), s.site), s.type), s.nodes), s.nodeMemory), s.storage), s.hasGpu),
      s.nodeSpeed), s.interconnect))
    (fun _ => rfl) (fun _ => rfl) "SystemDescription" hv system

end System

namespace Status

/-- The fields of a status in their order. The queue may be left out when it is empty. -/
def fields (status : Status) : List Cell := [
  .required "current_num_available_nodes" (Json.IsCount status.available),
  .required "current_job_start_time_estimate" (Json.IsDouble status.startEstimate),
  .defaulted "queue_length" (Json.IsCount status.queued) (status.queued = 0)]

theorem consistent_shape : shape.Consistent := by
  unfold shape Shape.required
  iterate 3 apply Shape.Consistent.field
  exact Shape.consistent_empty _

/-- A status is decoded exactly from what spells it. -/
theorem decode_shape {v : Json} (hv : v.Proper) (status : Status) :
    shape.decode "SystemStatus" v = .ok status ↔ Cell.Spelled status.fields v := by
  have hshape := Shape.describes_empty Status.mk
    |>.required "current_num_available_nodes" readCount_eq_ok
    |>.required "current_job_start_time_estimate" readDouble_eq_ok
    |>.defaulted "queue_length" 0 readCount_eq_ok
  exact hshape.decode_record consistent_shape fields
    (fun s => ((((), s.available), s.startEstimate), s.queued))
    (fun _ => rfl) (fun _ => rfl) "SystemStatus" hv status

end Status

end Placement
