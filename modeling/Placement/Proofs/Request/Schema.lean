import Placement.Proofs.Record.Padding
import Placement.Proofs.Request.Acceptance
import Placement.Proofs.Request.Deferral
/-
  One schema for every record.

  * `RecordForm.read_outdated`: a record that uses an old name is refused for the first such name of
    its table, whatever else it holds, and the message names both the old name and the new one
    (`Rejection.Redirects`).
  * `BidRequest.refuses_outdated_system`, `SelectionRequest.refuses_candidate`: so is the request it
    stands in, for the same reason, given that what is read before it is fine (`Refuses`).
  * `BidRequest.read_padded`, `SelectionRequest.read_padded`: keys that are neither fields nor old
    names change nothing, in a request, in its records and in those of its candidates.

  `reads_one_schema` puts them together, for every value.
-/
namespace Placement

/-! ## What is said of an old name -/

/-- A rejection names an old key, and the key to use for it, under a heading. -/
def Rejection.Redirects (r : Rejection) (heading old new : String) : Prop :=
  r.message = heading ++ ": legacy field `" ++ old ++ "` is not supported, use `" ++ new ++ "`"

/-- The text of a fault that names both keys. -/
theorem Fault.message_legacy (old new : String) : (Fault.legacy old new).message
    = "legacy field `" ++ old ++ "` is not supported, use `" ++ new ++ "`" := by
  have hopen : "legacy field `" = "legacy field " ++ "`" := by decide +kernel
  have hbetween : "` is not supported, use `" = "`" ++ (" is not supported, use " ++ "`") := by
    decide +kernel
  rw [hopen, hbetween]
  unfold message ticked
  simp only [String.append_assoc]

/-- A rejection of that fault redirects under the heading of its kind. -/
theorem Rejection.redirects_legacy {r : Rejection} {heading old new : String}
    (hheading : r.kind.heading = heading ++ ": ")
    (hdetail : r.detail = (Fault.legacy old new).message) : r.Redirects heading old new := by
  have hcolon : ": legacy field `" = ": " ++ "legacy field `" := by decide +kernel
  unfold Redirects message
  rw [hheading, hdetail, hcolon, Fault.message_legacy]
  simp only [String.append_assoc]

theorem JobCause.redirects_legacy (old new : String) :
    Rejection.Redirects (.job (.fault (.legacy old new))) "invalid job" old new :=
  Rejection.redirects_legacy rfl rfl

theorem SystemCause.redirects_legacy (old new : String) :
    Rejection.Redirects (.system (.fault (.legacy old new))) "invalid system" old new :=
  Rejection.redirects_legacy rfl rfl

/-! ## Old names in a record -/

namespace RecordForm

variable {α : Type} (form : RecordForm α)

/-- A value uses old names, and the first one of the table gives a rejection. -/
def Outdated (v : Json) (r : Rejection) : Prop :=
  ∃ old new, form.renames.FirstUsed v (old, new) ∧ r = form.reject (.legacy old new)

/-- An outdated record stands under a key of an object. -/
def OutdatedUnder (v : Json) (key : String) (r : Rejection) : Prop :=
  ∃ w, v.get? key = some w ∧ form.Outdated w r

theorem OutdatedUnder.object {form : RecordForm α} {v : Json} {key : String} {r : Rejection}
    (h : form.OutdatedUnder v key r) : ∃ members : Json.Members, v = .object members := by
  obtain ⟨_, hw, -⟩ := h
  exact object_of_get? hw

/-- The rejection of an outdated record redirects as those of its form do. -/
theorem OutdatedUnder.redirects {form : RecordForm α} {v : Json} {key heading : String}
    {r : Rejection} (h : form.OutdatedUnder v key r)
    (hform : ∀ old new, (form.reject (.legacy old new)).Redirects heading old new) :
    ∃ w old new, v.get? key = some w ∧ form.renames.FirstUsed w (old, new) ∧
      r.Redirects heading old new := by
  obtain ⟨w, hw, old, new, hfirst, rfl⟩ := h
  exact ⟨w, old, new, hw, hfirst, hform old new⟩

theorem exists_outdated {v : Json} (h : ¬ form.renames.Unused v) : ∃ r, form.Outdated v r := by
  cases hused : form.renames.used? v with
  | none => exact absurd (Renames.used?_eq_none.mp hused) h
  | some entry => exact ⟨_, entry.1, entry.2, Renames.used?_eq_some.mp hused, rfl⟩

/-- An old name is looked for before anything else. -/
theorem read_outdated {v : Json} {r : Rejection} (h : form.Outdated v r) :
    form.read v = .error r := by
  obtain ⟨old, new, hfirst, rfl⟩ := h
  unfold read Renames.guarded
  rw [Renames.used?_eq_some.mpr hfirst]
  rfl

/-! ## Keys beside the fields -/

/-- The keys that a record looks for: its columns and its old names. -/
def known : Json.Known :=
  .fixed (form.shape.columns.map Prod.fst ++ form.renames.map Prod.fst)

/-- A record is padded with keys that are neither fields nor old names. -/
def Padded : Json → Json → Prop := Json.Padded form.known

variable {form}

/-- A padded record is read as the record was. -/
theorem read_padded (hshape : form.shape.ReadsColumns) {v v' : Json} (h : form.Padded v v') :
    form.read v' = form.read v := by
  have hcolumns : ∀ key ∈ form.shape.columns.map Prod.fst,
      List.lookup key form.known = some Eq := fun _ hkey =>
    Json.Known.lookup_fixed (List.mem_append_left _ hkey)
  have hold : ∀ entry ∈ form.renames, List.lookup entry.1 form.known = some Eq := fun _ hentry =>
    Json.Known.lookup_fixed (List.mem_append_right _ (List.mem_map_of_mem hentry))
  unfold read Renames.guarded
  rw [Renames.used?_padded hold h, Shape.decode_padded hshape hcolumns form.name h]

end RecordForm

theorem Job.read_outdated {v : Json} {r : Rejection} (h : form.Outdated v r) :
    read v = .error r := by
  show (form.read v >>= _) = _
  rw [form.read_outdated h]
  rfl

theorem Job.read_padded {v v' : Json} (h : form.Padded v v') : read v' = read v := by
  show (form.read v' >>= _) = (form.read v >>= _)
  rw [RecordForm.read_padded readsColumns_shape h]

theorem System.read_outdated {v : Json} {r : Rejection} (h : form.Outdated v r) :
    read v = .error r := by
  show (form.read v >>= _) = _
  rw [form.read_outdated h]
  rfl

theorem System.readUnchecked_padded {v v' : Json} (h : form.Padded v v') :
    readUnchecked v' = readUnchecked v := RecordForm.read_padded readsColumns_shape h

theorem System.read_padded {v v' : Json} (h : form.Padded v v') : read v' = read v := by
  unfold read
  rw [readUnchecked_padded h]

theorem Status.read_padded {v v' : Json} (h : form.Padded v v') : read v' = read v :=
  RecordForm.read_padded readsColumns_shape h

/-! ## Parts of an object -/

/-- Under a key of an object stands what a reader accepts. -/
def Json.Reads {α : Type} (v : Json) (key : String) (read : Json → Except Rejection α) : Prop :=
  ∃ w a, v.get? key = some w ∧ read w = .ok a

/-- A part is read from what it is padded to as from the part itself. -/
theorem demand_padded {α : Type} {R : Json → Json → Prop} {part part' : Option Json}
    (h : Option.Rel R part part') {read : Json → Except Rejection α}
    (hread : ∀ v v', R v v' → read v' = read v) (missing : Rejection) :
    (demand part' missing >>= read) = (demand part missing >>= read) := by
  cases h with
  | none => rfl
  | some h => exact hread _ _ h

theorem demand_of_reads {α : Type} {members : Json.Members} {key : String}
    {read : Json → Except Rejection α} (h : (Json.object members).Reads key read)
    (missing : Rejection) : ∃ a, (demand (members.find? key) missing >>= read) = .ok a := by
  obtain ⟨w, a, hw, ha⟩ := h
  refine ⟨a, ?_⟩
  rw [show members.find? key = some w from hw]
  exact ha

theorem demand_of_outdated {α β : Type} {form : RecordForm β} {members : Json.Members}
    {key : String} {r : Rejection} {read : Json → Except Rejection α}
    (h : form.OutdatedUnder (.object members) key r)
    (hread : ∀ w, form.Outdated w r → read w = .error r) (missing : Rejection) :
    (demand (members.find? key) missing >>= read) = .error r := by
  obtain ⟨w, hw, hold⟩ := h
  rw [show members.find? key = some w from hw]
  exact hread w hold

namespace RecordForm

variable {α : Type} {form : RecordForm α}

theorem readPart_padded (hshape : form.shape.ReadsColumns) {part part' : Option Json}
    (h : Option.Rel form.Padded part part') (missing : Rejection) :
    form.readPart part' missing = form.readPart part missing :=
  demand_padded h (fun _ _ => read_padded hshape) missing

theorem OutdatedUnder.readPart {members : Json.Members} {key : String} {r : Rejection}
    (h : form.OutdatedUnder (.object members) key r) (missing : Rejection) :
    form.readPart (members.find? key) missing = .error r :=
  demand_of_outdated h (fun _ => form.read_outdated) missing

end RecordForm

theorem requestJob_eq (members : Json.Members) :
    requestJob members = demand (members.find? "job_description")
      (.job (.absent "job_description")) >>= Job.read := by
  unfold requestJob demand
  cases members.find? "job_description" <;> rfl

theorem requestJob_padded {members members' : Json.Members}
    (h : Option.Rel Job.form.Padded (members.find? "job_description")
      (members'.find? "job_description")) : requestJob members' = requestJob members := by
  rw [requestJob_eq, requestJob_eq]
  exact demand_padded h (fun _ _ => Job.read_padded) _

theorem requestJob_of_outdated {members : Json.Members} {r : Rejection}
    (h : Job.form.OutdatedUnder (.object members) "job_description" r) :
    requestJob members = .error r :=
  (requestJob_eq members).trans (demand_of_outdated h (fun _ => Job.read_outdated) _)

theorem exists_requestJob {members : Json.Members}
    (h : (Json.object members).Reads "job_description" Job.read) :
    ∃ job, requestJob members = .ok job := by
  rw [requestJob_eq]
  exact demand_of_reads h _

theorem requestClock_padded {members members' : Json.Members}
    (h : members'.find? "current_simulated_time" = members.find? "current_simulated_time") :
    requestClock members' = requestClock members := by
  unfold requestClock
  rw [h]

/-! ## Refusals -/

/-- An input is refused; for this reason, where what is read before is fine. -/
structure Refuses {α : Type} (x : Except Rejection α) (r : Rejection) (fine : Prop) : Prop where
  refused : ∃ r', x = .error r'
  reason : fine → x = .error r

namespace Refuses

variable {α β : Type} {x : Except Rejection α} {r : Rejection} {fine fine' : Prop}

theorem of_eq (h : x = .error r) : Refuses x r fine := ⟨⟨r, h⟩, fun _ => h⟩

/-- What is read first is fine, or is refused itself. -/
theorem after {f : α → Except Rejection β} (hx : fine → ∃ a, x = .ok a)
    (hf : ∀ a, x = .ok a → Refuses (f a) r fine') (hfine : fine → fine') :
    Refuses (x >>= f) r fine := by
  cases hread : x with
  | error r' =>
    refine ⟨⟨r', rfl⟩, fun h => ?_⟩
    obtain ⟨a, ha⟩ := hx h
    exact nomatch hread.symm.trans ha
  | ok a => exact ⟨(hf a hread).refused, fun h => (hf a hread).reason (hfine h)⟩

/-- What is refused leaves nothing to go on with. -/
theorem before (h : Refuses x r fine) (f : α → Except Rejection β) :
    Refuses (x >>= f) r fine := by
  obtain ⟨⟨r', hr'⟩, hreason⟩ := h
  refine ⟨⟨r', by rw [hr']; rfl⟩, fun hfine => ?_⟩
  rw [hreason hfine]
  rfl

end Refuses

/-! ## Bid requests -/

namespace BidRequest

/-- The keys of a bid request. -/
def known : Json.Known := [
  ("job_description", Job.form.Padded),
  ("hpc_system_description", System.form.Padded),
  ("hpc_system_status", Status.form.Padded),
  ("current_simulated_time", Eq)]

theorem read_object (members : Json.Members) : read (.object members) = readParts members :=
  read_eq (.object members)

/-- A padded request is read as the request was. -/
theorem read_padded {v v' : Json} (h : v.Padded known v') : read v' = read v := by
  cases h with
  | same => rfl
  | @object members members' h =>
    have hsystem : (systemMember members' "hpc_system_description" >>= System.read)
        = (systemMember members "hpc_system_description" >>= System.read) :=
      demand_padded (R := System.form.Padded) (h.find? rfl) (fun _ _ => System.read_padded) _
    rw [read_object, read_object]
    unfold readParts
    rw [requestJob_padded (h.find? rfl), hsystem,
      RecordForm.readPart_padded Status.readsColumns_shape (h.find? rfl),
      requestClock_padded (h.find?_eq rfl)]

variable {v : Json} {r : Rejection}

theorem read_outdated_job (h : Job.form.OutdatedUnder v "job_description" r) :
    read v = .error r := by
  obtain ⟨members, rfl⟩ := h.object
  rw [read_object]
  unfold readParts
  rw [requestJob_of_outdated h]
  rfl

theorem refuses_outdated_system (h : System.form.OutdatedUnder v "hpc_system_description" r) :
    Refuses (read v) r (v.Reads "job_description" Job.read) := by
  obtain ⟨members, rfl⟩ := h.object
  have hsystem : (systemMember members "hpc_system_description" >>= System.read) = .error r :=
    demand_of_outdated h (fun _ => System.read_outdated) _
  rw [read_object]
  exact .after exists_requestJob (fun job _ => .before (.of_eq hsystem) _) fun _ => trivial

theorem refuses_outdated_status (h : Status.form.OutdatedUnder v "hpc_system_status" r) :
    Refuses (read v) r
      (v.Reads "job_description" Job.read ∧ v.Reads "hpc_system_description" System.read) := by
  obtain ⟨members, rfl⟩ := h.object
  rw [read_object]
  exact .after (fun hfine => exists_requestJob hfine.1)
    (fun job _ => .after (fun hsystem => demand_of_reads hsystem _)
      (fun system _ => .before (.of_eq (h.readPart _)) _) fun _ => trivial) And.right

end BidRequest

/-! ## Candidates -/

namespace Candidate

/-- The keys of a candidate. -/
def known : Json.Known := [
  ("system_name", Eq),
  ("description", System.form.Padded),
  ("status", Status.form.Padded)]

/-- A candidate has a name. -/
def Named (v : Json) : Prop := ∃ name, v.get? "system_name" = some (.text name) ∧ name ≠ ""

theorem read_object (index : Nat) (members : Json.Members) :
    read index (.object members) = readParts index members := read_eq index (.object members)

/-- A padded candidate is read as the candidate was. -/
theorem read_padded {v v' : Json} (h : v.Padded known v') (index : Nat) :
    read index v' = read index v := by
  cases h with
  | same => rfl
  | @object members members' h =>
    rw [read_object, read_object]
    unfold readParts readName
    rw [h.find?_eq rfl, RecordForm.readPart_padded System.readsColumns_shape (h.find? rfl),
      RecordForm.readPart_padded Status.readsColumns_shape (h.find? rfl)]

/-- Candidates that are padded one by one are read as they were. -/
theorem readFrom_padded {items items' : List Json}
    (h : List.Forall₂ (Json.Padded known) items items') (index : Nat) :
    readFrom index items' = readFrom index items := by
  induction h generalizing index with
  | nil => rfl
  | cons h _ ih =>
    unfold readFrom
    rw [read_padded h, ih]

variable {v : Json} {r : Rejection} {index : Nat}

theorem readName_of_named {members : Json.Members} (h : Named (.object members)) (index : Nat) :
    ∃ name, readName index members = .ok name := by
  obtain ⟨name, hfind, hname⟩ := h
  refine ⟨name, ?_⟩
  unfold readName
  rw [show members.find? "system_name" = some (.text name) from hfind]
  dsimp only
  rw [if_neg (by rwa [String.isEmpty_iff])]

theorem refuses_outdated_system (h : System.form.OutdatedUnder v "description" r) :
    Refuses (read index v) r (Named v) := by
  obtain ⟨members, rfl⟩ := h.object
  rw [read_object]
  exact .after (fun hname => readName_of_named hname index)
    (fun name _ => .before (.of_eq (h.readPart _)) _) fun _ => trivial

theorem refuses_outdated_status (h : Status.form.OutdatedUnder v "status" r) :
    Refuses (read index v) r (Named v ∧ v.Reads "description" System.readUnchecked) := by
  obtain ⟨members, rfl⟩ := h.object
  rw [read_object]
  exact .after (fun hfine => readName_of_named hfine.1 index)
    (fun name _ => .after (fun hsystem => demand_of_reads hsystem _)
      (fun system _ => .before (.of_eq (h.readPart _)) _) fun _ => trivial) And.right

/-- A candidate that is refused lets the list be refused that it stands in. -/
theorem refuses_readFrom {before after : List Json} {fine : Prop}
    (h : ∀ index, Refuses (read index v) r fine) (index : Nat) :
    Refuses (readFrom index (before ++ v :: after)) r
      ((∃ candidates, readFrom index before = .ok candidates) ∧ fine) := by
  -- on the candidates before it, which are read first and may be refused themselves
  induction before generalizing index with
  | nil =>
    obtain ⟨hrefused, hreason⟩ := (h index).before fun candidate =>
      readFrom (index + 1) after >>= fun others => .ok (candidate :: others)
    exact ⟨hrefused, fun hfine => hreason hfine.2⟩
  | cons first rest ih =>
    refine .after (fun hfine => ?_) (fun candidate hcandidate => .before (ih (index + 1)) _)
      fun hfine => ⟨?_, hfine.2⟩
    · obtain ⟨⟨candidates, hread⟩, -⟩ := hfine
      obtain ⟨candidate, hcandidate, -⟩ := bind_eq_ok.mp hread
      exact ⟨candidate, hcandidate⟩
    · obtain ⟨⟨candidates, hread⟩, -⟩ := hfine
      obtain ⟨_, -, hread⟩ := bind_eq_ok.mp hread
      obtain ⟨others, hothers, -⟩ := bind_eq_ok.mp hread
      exact ⟨others, hothers⟩

end Candidate

/-! ## Selection requests -/

/-- An array is padded item by item, and any other value not at all. -/
inductive Json.PaddedItems (R : Json → Json → Prop) : Json → Json → Prop
  | same (v : Json) : PaddedItems R v v
  | array {items items' : List Json} (h : List.Forall₂ R items items') :
      PaddedItems R (.array items) (.array items')

namespace SelectionRequest

/-- The keys of a selection request. -/
def known : Json.Known := [
  ("job_description", Job.form.Padded),
  ("systems", Json.PaddedItems (Json.Padded Candidate.known)),
  ("current_simulated_time", Eq)]

theorem read_object (members : Json.Members) : read (.object members) = readParts members := rfl

theorem listed_padded {part part' : Option Json}
    (h : Option.Rel (Json.PaddedItems (Json.Padded Candidate.known)) part part') :
    (Candidate.listed part' >>= Candidate.readFrom 0)
      = (Candidate.listed part >>= Candidate.readFrom 0) := by
  cases h with
  | none => rfl
  | some h =>
    cases h with
    | same => rfl
    | array h => exact Candidate.readFrom_padded h 0

/-- A padded request is read as the request was. -/
theorem read_padded {v v' : Json} (h : v.Padded known v') : read v' = read v := by
  cases h with
  | same => rfl
  | @object members members' h =>
    have hcandidates : Candidate.readAll members' = Candidate.readAll members := by
      rw [Candidate.readAll_eq, Candidate.readAll_eq]
      exact listed_padded (h.find? rfl)
    rw [read_object, read_object]
    unfold readParts
    rw [requestJob_padded (h.find? rfl), hcandidates, requestClock_padded (h.find?_eq rfl)]

variable {v entry : Json} {r : Rejection} {before after : List Json} {fine : Prop}

theorem read_outdated_job (h : Job.form.OutdatedUnder v "job_description" r) :
    read v = .error r := by
  obtain ⟨members, rfl⟩ := h.object
  rw [read_object]
  unfold readParts
  rw [requestJob_of_outdated h]
  rfl

/-- A request is refused with any of its candidates. -/
theorem refuses_candidate (hsystems : v.get? "systems" = some (.array (before ++ entry :: after)))
    (h : ∀ index, Refuses (Candidate.read index entry) r fine) :
    Refuses (read v) r (v.Reads "job_description" Job.read ∧
      (∃ candidates, Candidate.readFrom 0 before = .ok candidates) ∧ fine) := by
  obtain ⟨(members : Json.Members), rfl⟩ := object_of_get? hsystems
  have hall : Candidate.readAll members = Candidate.readFrom 0 (before ++ entry :: after) := by
    rw [Candidate.readAll_eq,
      show members.find? "systems" = some (.array (before ++ entry :: after)) from hsystems]
    rfl
  rw [read_object]
  refine .after (fun hfine => exists_requestJob hfine.1) (fun job _ => .before ?_ _) And.right
  rw [hall]
  exact Candidate.refuses_readFrom h 0

end SelectionRequest

/-! ## The law -/

/-- Old and new names are never mixed, and keys that are neither count for nothing. A record that
uses an old name is refused as what it was to be, and the message names the first such name of its
table and the name to use for it, whatever else the record holds. A request is refused with any of
its records that uses an old name, and for the same reason, which says the same, where what is read
before that record is fine. A record or a request
that is padded, in its own members or further in, with keys that are neither fields nor old names
where they stand is read to the result that it had without them, or refused as it was. -/
theorem reads_one_schema :
    (∀ v,
      (¬ Job.renames.Unused v → ∃ old new, Job.renames.FirstUsed v (old, new) ∧
        Job.read v = .error (.job (.fault (.legacy old new))) ∧
        Rejection.Redirects (.job (.fault (.legacy old new))) "invalid job" old new) ∧
      (¬ System.renames.Unused v → ∃ old new, System.renames.FirstUsed v (old, new) ∧
        System.readUnchecked v = .error (.system (.fault (.legacy old new))) ∧
        System.read v = .error (.system (.fault (.legacy old new))) ∧
        Rejection.Redirects (.system (.fault (.legacy old new))) "invalid system" old new) ∧
      (¬ Status.renames.Unused v → ∃ old new, Status.renames.FirstUsed v (old, new) ∧
        Status.read v = .error (.system (.fault (.legacy old new))) ∧
        Rejection.Redirects (.system (.fault (.legacy old new))) "invalid system" old new)) ∧
    (∀ v key r,
      (Job.form.OutdatedUnder v key r → ∃ w old new, v.get? key = some w ∧
        Job.renames.FirstUsed w (old, new) ∧ r.Redirects "invalid job" old new) ∧
      (System.form.OutdatedUnder v key r → ∃ w old new, v.get? key = some w ∧
        System.renames.FirstUsed w (old, new) ∧ r.Redirects "invalid system" old new) ∧
      (Status.form.OutdatedUnder v key r → ∃ w old new, v.get? key = some w ∧
        Status.renames.FirstUsed w (old, new) ∧ r.Redirects "invalid system" old new)) ∧
    (∀ v r,
      (Job.form.OutdatedUnder v "job_description" r →
        BidRequest.read v = .error r ∧ SelectionRequest.read v = .error r) ∧
      (System.form.OutdatedUnder v "hpc_system_description" r →
        Refuses (BidRequest.read v) r (v.Reads "job_description" Job.read)) ∧
      (Status.form.OutdatedUnder v "hpc_system_status" r →
        Refuses (BidRequest.read v) r
          (v.Reads "job_description" Job.read ∧ v.Reads "hpc_system_description" System.read)) ∧
      ∀ before entry after, v.get? "systems" = some (.array (before ++ entry :: after)) →
        (System.form.OutdatedUnder entry "description" r →
          Refuses (SelectionRequest.read v) r (v.Reads "job_description" Job.read ∧
            (∃ candidates, Candidate.readFrom 0 before = .ok candidates) ∧
            Candidate.Named entry)) ∧
        (Status.form.OutdatedUnder entry "status" r →
          Refuses (SelectionRequest.read v) r (v.Reads "job_description" Job.read ∧
            (∃ candidates, Candidate.readFrom 0 before = .ok candidates) ∧
            Candidate.Named entry ∧ entry.Reads "description" System.readUnchecked))) ∧
    ∀ v v',
      (Job.form.Padded v v' → Job.read v' = Job.read v) ∧
      (System.form.Padded v v' →
        System.readUnchecked v' = System.readUnchecked v ∧ System.read v' = System.read v) ∧
      (Status.form.Padded v v' → Status.read v' = Status.read v) ∧
      (v.Padded BidRequest.known v' → BidRequest.read v' = BidRequest.read v) ∧
      (v.Padded SelectionRequest.known v' → SelectionRequest.read v' = SelectionRequest.read v) := by
  refine ⟨fun v => ⟨fun h => ?_, fun h => ?_, fun h => ?_⟩,
    fun v key r => ⟨fun h => h.redirects JobCause.redirects_legacy,
      fun h => h.redirects SystemCause.redirects_legacy,
      fun h => h.redirects SystemCause.redirects_legacy⟩, fun v r => ?_, fun v v' => ?_⟩
  · obtain ⟨r, hold⟩ := Job.form.exists_outdated h
    obtain ⟨old, new, hfirst, rfl⟩ := id hold
    exact ⟨old, new, hfirst, Job.read_outdated hold, JobCause.redirects_legacy old new⟩
  · obtain ⟨r, hold⟩ := System.form.exists_outdated h
    obtain ⟨old, new, hfirst, rfl⟩ := id hold
    exact ⟨old, new, hfirst, System.form.read_outdated hold, System.read_outdated hold,
      SystemCause.redirects_legacy old new⟩
  · obtain ⟨r, hold⟩ := Status.form.exists_outdated h
    obtain ⟨old, new, hfirst, rfl⟩ := id hold
    exact ⟨old, new, hfirst, Status.form.read_outdated hold, SystemCause.redirects_legacy old new⟩
  · refine ⟨fun h => ⟨BidRequest.read_outdated_job h, SelectionRequest.read_outdated_job h⟩,
      BidRequest.refuses_outdated_system, BidRequest.refuses_outdated_status,
      fun before entry after hsystems => ⟨fun h => ?_, fun h => ?_⟩⟩
    · exact SelectionRequest.refuses_candidate hsystems fun _ => Candidate.refuses_outdated_system h
    · exact SelectionRequest.refuses_candidate hsystems fun _ => Candidate.refuses_outdated_status h
  · exact ⟨Job.read_padded, fun h => ⟨System.readUnchecked_padded h, System.read_padded h⟩,
      Status.read_padded, BidRequest.read_padded, SelectionRequest.read_padded⟩

/-- A status that says in the old way how many nodes are free, and is no status otherwise. -/
def outdatedStatus : Json := .object [
  ("available_nodes", .number (.natural 4)),
  ("queue_length", .text "long")]

theorem reads_one_schema_terse :
    (∃ r, Status.read outdatedStatus = .error r ∧
      r.message = "invalid system: legacy field `available_nodes` is not supported, " ++
        "use `current_num_available_nodes`") ∧
    ∃ v, BidRequest.terse.Padded BidRequest.known v ∧ v.get? "remark" = some (.text "urgent") ∧
      BidRequest.read v = .ok BidRequest.terseRequest := by
  obtain ⟨hrecords, -, -, hpadded⟩ := reads_one_schema
  constructor
  · have hused : Status.renames.used? outdatedStatus
        = some ("available_nodes", "current_num_available_nodes") := rfl
    obtain ⟨old, new, hfirst, hread, hmessage⟩ := (hrecords outdatedStatus).2.2 fun hunused => by
      rw [Renames.used?_eq_none.mpr hunused] at hused
      cases hused
    obtain ⟨rfl, rfl⟩ : "available_nodes" = old ∧ "current_num_available_nodes" = new :=
      Prod.mk.inj (Option.some.inj (hused.symm.trans (Renames.used?_eq_some.mpr hfirst)))
    exact ⟨_, hread, hmessage.trans (by decide +kernel)⟩
  · have hknown : ∀ entry ∈ BidRequest.known, ∀ v, entry.2 v v :=
      List.forall_mem_cons.mpr ⟨.same, List.forall_mem_cons.mpr ⟨.same,
        List.forall_mem_cons.mpr ⟨.same, List.forall_mem_singleton.mpr Eq.refl⟩⟩⟩
    obtain ⟨members, hmembers⟩ : ∃ members, BidRequest.terse = .object members := ⟨_, rfl⟩
    have hset : BidRequest.terse.Padded BidRequest.known
        (.object (Json.Members.set "remark" (.text "urgent") members)) := by
      rw [hmembers]
      exact .object (.set hknown rfl _ members)
    refine ⟨_, hset, ?_, (hpadded BidRequest.terse _).2.2.2.1 hset⟩
    exact (Json.Members.find?_set members _ _ _).trans (if_pos rfl)

end Placement
