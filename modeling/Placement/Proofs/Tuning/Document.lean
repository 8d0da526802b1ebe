import Placement.Proofs.Toml.Restrict
import Placement.Proofs.Tuning.Overlay
import Placement.Proofs.Tuning.Verdict
/-
  Tunings and their documents. `Tuning.States t stated v`: the document `v` states the keys
  `stated`, with the values of `t`, and no other known ones.

  * `States.ofText`: such a document is read as the values of `t` on these keys and the default
    elsewhere (`Tuning.overlay`), and the check decides whether it is loaded.
  * `Tuning.exists_states`: any keys can be stated alone, GIVEN values that can be printed and that
    fit their keys.
  * `Tuning.ofText_render`: a tuning that was loaded comes back from the document that it is written
    as.
  * `Tuning.document_overrides_stated`: these, and what the check reports.
-/
namespace Placement

open Toml (Printable PrintableEntries IsBareKey IsPlain settled)

/-! ## Written sections -/

/-- All values are written in plain: names and finite numbers. -/
def Leaves.Plain (leaves : Leaves) : Prop := ∀ leaf ∈ leaves, IsPlain leaf.2.written

theorem Leaves.plain_under {leaves : Leaves} {key : String} :
    (leaves.under key).Plain ↔ leaves.Plain := List.forall_mem_map

theorem Leaves.plain_append {leaves leaves' : Leaves} :
    Plain (leaves ++ leaves') ↔ leaves.Plain ∧ leaves'.Plain := List.forall_mem_append

/-- All counts fit a signed word. -/
def Leaves.Fit (leaves : Leaves) : Prop := ∀ leaf ∈ leaves, leaf.2.Fits

theorem ExternalTuning.fit_iff {t : ExternalTuning} :
    t.leaves.Fit ↔ t.timeoutSeconds.toNat < 0x8000000000000000 := List.forall_mem_singleton

section Write

variable {σ : Type} {s : σ}

/-- Keys that have values of their own. -/
theorem Leaves.Plain.printable_get {leaves : Leaves} (h : leaves.Plain) {keys : List (Key σ)}
    (hkeys : keys.map (fun key => key.get s) = leaves.map fun leaf => leaf.2.written) :
    ∀ key ∈ keys, Printable (key.get s) := by
  intro key hkey
  have hmem : key.get s ∈ leaves.map fun leaf => leaf.2.written :=
    hkeys ▸ List.mem_map_of_mem hkey
  obtain ⟨leaf, hleaf, heq⟩ := List.mem_map.mp hmem
  rw [← heq]
  exact (h leaf hleaf).printable

/-- A section is printable if its keys are bare and distinct and their values printable. -/
theorem Form.printable_write {form : Form σ} (hkeys : (form.keys.map Key.name).Nodup)
    (hbare : ∀ key ∈ form.keys, IsBareKey key.name)
    (hget : ∀ key ∈ form.keys, Printable (key.get s)) : Printable (form.write s) := by
  have hentries (keys : List (Key σ)) (hbare : ∀ key ∈ keys, IsBareKey key.name)
      (hget : ∀ key ∈ keys, Printable (key.get s)) :
      PrintableEntries (keys.map fun key => (key.name, key.get s)) := by
    induction keys with
    | nil => trivial
    | cons key keys ih =>
      rw [List.forall_mem_cons] at hbare hget
      exact ⟨hbare.1, hget.1, ih hbare.2 hget.2⟩
  refine ⟨?_, hentries form.keys hbare hget⟩
  rwa [List.map_map]

end Write

theorem GateTuning.printable {t : GateTuning} (h : t.leaves.Plain) : Printable (form.write t) :=
  Form.printable_write (by decide) (by decide) (h.printable_get rfl)

theorem HeuristicTuning.printable {t : HeuristicTuning} (h : t.leaves.Plain) :
    Printable (form.write t) :=
  Form.printable_write (by decide) (by decide) (h.printable_get rfl)

theorem JobCaps.printable {t : JobCaps} (h : t.leaves.Plain) : Printable (form.write t) :=
  Form.printable_write (by decide) (by decide) (h.printable_get rfl)

theorem SystemCaps.printable {t : SystemCaps} (h : t.leaves.Plain) : Printable (form.write t) :=
  Form.printable_write (by decide) (by decide) (h.printable_get rfl)

theorem EmbeddingTuning.printable {t : EmbeddingTuning} (h : t.leaves.Plain) :
    Printable (form.write t) := by
  obtain ⟨hcaps, hrest⟩ := Leaves.plain_append.mp h
  obtain ⟨hjob, hsystem⟩ := Leaves.plain_append.mp hcaps
  exact Form.printable_write (by decide) (by decide) (List.forall_mem_cons.mpr
    ⟨JobCaps.printable (Leaves.plain_under.mp hjob), List.forall_mem_cons.mpr
      ⟨SystemCaps.printable (Leaves.plain_under.mp hsystem), hrest.printable_get rfl⟩⟩)

theorem ExternalTuning.printable {t : ExternalTuning} (h : t.leaves.Plain) :
    Printable (form.write t) :=
  Form.printable_write (by decide) (by decide) (h.printable_get rfl)

theorem NodeCheck.isPlain_name (check : NodeCheck) : IsPlain (.text check.name) :=
  .text (List.all_eq_true.mp (by cases check <;> rfl))

theorem ScorerKind.isPlain_name (kind : ScorerKind) : IsPlain (.text kind.name) :=
  .text (List.all_eq_true.mp (by cases kind <;> rfl))

namespace Tuning

/-- A tuning in plain is printable. -/
theorem printable_toToml {t : Tuning} (h : t.leaves.Plain) : Printable t.toToml := by
  obtain ⟨h, hexternal⟩ := Leaves.plain_append.mp h
  obtain ⟨h, hembedding⟩ := Leaves.plain_append.mp h
  obtain ⟨h, hheuristic⟩ := Leaves.plain_append.mp h
  obtain ⟨hscorer, hgate⟩ := Leaves.plain_append.mp h
  refine Form.printable_write (by decide) (by decide) ?_
  simp only [form, List.forall_mem_cons]
  exact ⟨t.scorer.isPlain_name, GateTuning.printable (Leaves.plain_under.mp hgate),
    HeuristicTuning.printable (Leaves.plain_under.mp hheuristic),
    EmbeddingTuning.printable (Leaves.plain_under.mp hembedding),
    ExternalTuning.printable (Leaves.plain_under.mp hexternal),
    fun _ h => absurd h List.not_mem_nil⟩

/-- An accepted tuning is written in plain. -/
theorem plain_leaves {t : Tuning} (h : t.check = .ok ()) : t.leaves.Plain := by
  have hh := inRange h
  have he := embedding_inRange h
  simp only [Leaves.Plain, leaves, GateTuning.leaves, HeuristicTuning.leaves,
    EmbeddingTuning.leaves, JobCaps.leaves, SystemCaps.leaves, ExternalTuning.leaves,
    Leaves.under, List.map_cons, List.map_nil, List.cons_append, List.nil_append,
    List.forall_mem_cons]
  exact ⟨t.scorer.isPlain_name, t.gate.nodeCheck.isPlain_name, .double hh.exactType.isFinite,
    .double hh.compatibleType.isFinite, .double hh.storageMismatch.isFinite,
    .double hh.defaultType.isFinite, .flag _, .double hh.sameSystem.isFinite,
    .double hh.sameSite.isFinite, .double hh.crossSite.isFinite, .double hh.queueStep.isFinite,
    .double hh.queueFloor.isFinite, .double hh.delayDecay_finite, .double hh.delayFloor.isFinite,
    .integer _, .double he.jobNodes.isFinite, .double he.jobWalltime.isFinite,
    .double he.jobMemory.isFinite, .double he.jobStorage.isFinite,
    .double he.systemNodes.isFinite, .double he.systemSpeed.isFinite,
    .double he.systemMemory.isFinite, .double he.systemStorage.isFinite,
    .double he.unboundedStorage.isFinite, .double he.numericWeight.isFinite,
    .double he.typeWeight.isFinite, .double he.siteWeight.isFinite,
    .double he.baselineSpeed.isFinite, .double he.staticWeight.isFinite,
    .double he.dynamicWeight.isFinite, .double he.headroomWeight.isFinite,
    .double he.slowdownWeight.isFinite, .integer _, fun _ h => absurd h List.not_mem_nil⟩

theorem depth_toToml (t : Tuning) : Toml.depth t.toToml = 3 := rfl

/-- Every key of a written tuning leads to its value. -/
theorem at?_toToml (t : Tuning) : ∀ leaf ∈ t.leaves, t.toToml.at? leaf.1 = some leaf.2.written := by
  have hall : t.leaves.map (fun leaf => t.toToml.at? leaf.1)
      = t.leaves.map fun leaf => some leaf.2.written := rfl
  exact List.map_inj_left.mp hall

/-- Of all counts only the timeout may be beyond a signed word. -/
theorem fit_leaves {t : Tuning} (h : t.external.leaves.Fit) : t.leaves.Fit := by
  have hprecision : (Leaf.count t.heuristic.precision.toNat).Fits :=
    t.heuristic.precision.toNat_lt.trans (by decide)
  have htimeout := ExternalTuning.fit_iff.mp h
  simpa [Leaves.Fit, leaves, GateTuning.leaves, HeuristicTuning.leaves, EmbeddingTuning.leaves,
    JobCaps.leaves, SystemCaps.leaves, ExternalTuning.leaves, Leaves.under, Leaf.Fits]
    using ⟨hprecision, htimeout⟩

/-- A written tuning states all of its keys. -/
theorem states_toToml {t : Tuning} (hfit : t.leaves.Fit) :
    t.States (fun _ => true) t.toToml where
  tables := by
    simp only [Toml.TablesAt, sections, List.forall_mem_cons]
    refine ⟨?_, ?_, ?_, ?_, ?_, ?_, ?_, fun _ h => absurd h List.not_mem_nil⟩
    all_goals
      intro w hw
      cases hw
      exact ⟨_, rfl⟩
  mentions leaf hleaf := by
    unfold Toml.mentions
    rw [at?_toToml t leaf hleaf]
    rfl
  statedIn leaf hleaf w hw := by
    rw [at?_toToml t leaf hleaf] at hw
    cases hw
    exact (hfit leaf hleaf).statedBy_written

/-- What a printable value states, it states as well when it is settled. -/
theorem States.settled {t : Tuning} {stated : List String → Bool} {v : Toml} (hv : Printable v)
    (h : t.States stated v) : t.States stated (settled v).toToml where
  tables path hpath w hw := by
    rw [Toml.at?_settled hv] at hw
    obtain ⟨w', hw', rfl⟩ := Option.map_eq_some_iff.mp hw
    obtain ⟨entries, rfl⟩ := h.tables path hpath w' hw'
    exact ⟨_, rfl⟩
  mentions leaf hleaf := by
    rw [← h.mentions leaf hleaf]
    unfold Toml.mentions
    rw [Toml.at?_settled hv, Option.isSome_map]
  statedIn leaf hleaf w hw := by
    rw [Toml.at?_settled hv] at hw
    obtain ⟨w', hw', rfl⟩ := Option.map_eq_some_iff.mp hw
    have hstated := h.statedIn leaf hleaf w' hw'
    rw [Toml.settled_of_not_isTable hstated.isTable_eq_false, Toml.Node.toToml]
    exact hstated

theorem States.exists_at?_restrict {t : Tuning} {v : Toml} (hv : Printable v)
    (h : t.States (fun _ => true) v) (stated : List String → Bool) :
    ∀ leaf ∈ t.leaves, ∃ w, leaf.2.StatedBy w ∧
      (Toml.restrict stated v).at? leaf.1 = if stated leaf.1 then some w else none := by
  intro leaf hleaf
  obtain ⟨w, hw⟩ := Option.isSome_iff_exists.mp (h.mentions leaf hleaf)
  have hstated := h.statedIn leaf hleaf w hw
  have hplain := hstated.isTable_eq_false
  -- the empty path leads to the whole document, which is a table
  have hpath : leaf.1.isEmpty = false := by
    cases hleaf : leaf.1 with
    | nil =>
      rw [hleaf] at hw
      obtain ⟨entries, rfl⟩ := h.tables [] List.mem_cons_self w hw
      cases hplain
    | cons key path => rfl
  refine ⟨w, hstated, ?_⟩
  rw [Toml.at?_restrict hv, hw, Option.bind_some, hplain, hpath, Bool.false_or, Bool.false_or,
    Toml.restrict_of_not_isTable hplain]

/-- Of a document that states all keys, what is left states those that are left. -/
theorem States.restrict {t : Tuning} {v : Toml} (hv : Printable v)
    (h : t.States (fun _ => true) v) (stated : List String → Bool) :
    t.States stated (Toml.restrict stated v) where
  tables path hpath w hw := by
    rw [Toml.at?_restrict hv] at hw
    obtain ⟨w', hw', hkept⟩ := Option.bind_eq_some_iff.mp hw
    obtain ⟨entries, rfl⟩ := h.tables path hpath w' hw'
    cases hkept
    exact ⟨_, rfl⟩
  mentions leaf hleaf := by
    obtain ⟨w, -, hw⟩ := h.exists_at?_restrict hv stated leaf hleaf
    unfold Toml.mentions
    rw [hw]
    cases stated leaf.1 <;> rfl
  statedIn leaf hleaf w hw := by
    obtain ⟨w', hstated, hw'⟩ := h.exists_at?_restrict hv stated leaf hleaf
    rw [hw'] at hw
    split at hw <;> cases hw
    exact hstated

/-- For any of its keys there is a document that states just these. -/
theorem exists_states {t : Tuning} (hplain : t.leaves.Plain) (hfit : t.leaves.Fit)
    (stated : List String → Bool) :
    ∃ s v, Toml.parse? s = some v ∧ t.States stated v := by
  have hall := printable_toToml hplain
  have hsome := Toml.printable_restrict stated _ hall
  have hdepth : Toml.depth (Toml.restrict stated t.toToml) ≤ Toml.depthLimit :=
    (Toml.depth_restrict stated t.toToml).trans (depth_toToml t ▸ by decide)
  exact ⟨_, _, Toml.parse?_render hsome hdepth,
    ((states_toToml hfit).restrict hall stated).settled hsome⟩

/-! ## Loading -/

/-- What is read fits: a timeout is read from a signed word. -/
theorem fit_of_read {v : Toml} {t : Tuning} (h : form.read {} v = .ok t) : t.leaves.Fit := by
  refine fit_leaves (Form.read_keeps (P := fun t : Tuning => t.external.leaves.Fit)
    (ExternalTuning.fit_iff.mpr (by decide)) ?_ h)
  simp only [form, List.forall_mem_cons]
  refine ⟨.of fun _ _ _ _ ht => ht, .of fun _ _ _ _ ht => ht, .of fun _ _ _ _ ht => ht,
    .of fun _ _ _ _ ht => ht, .of fun w external hread _ _ => ?_,
    fun _ h => absurd h List.not_mem_nil⟩
  refine Form.read_keeps (P := fun t : ExternalTuning => t.leaves.Fit)
    (ExternalTuning.fit_iff.mpr (by decide)) ?_ hread
  simp only [ExternalTuning.form, List.forall_mem_singleton]
  exact .of fun w n hread _ _ => ExternalTuning.fit_iff.mpr (Codec.fits_of_count64 hread)

section Load

variable {s : String} {v : Toml} {t : Tuning} {stated : List String → Bool}
  (hs : Toml.parse? s = some v) (h : t.States stated v)
include hs h

/-- What a document states is checked and loaded, and the default elsewhere. -/
theorem States.ofText :
    ofText s = ((t.overlay stated).check.mapError .breach).map fun _ => t.overlay stated := by
  unfold Tuning.ofText ofToml
  rw [hs]
  dsimp only
  rw [h.read (Toml.distinct_of_parse? hs)]
  exact bind_pure_const _ _

theorem States.ofText_eq_ok {t' : Tuning} :
    Tuning.ofText s = .ok t' ↔ (t.overlay stated).check = .ok () ∧ t' = t.overlay stated := by
  rw [h.ofText hs, map_const_eq_ok, mapError_eq_ok]

theorem States.ofText_eq_error {e : LoadError} :
    Tuning.ofText s = .error e ↔ ∃ b, (t.overlay stated).check = .error b ∧ e = .breach b := by
  rw [h.ofText hs, map_eq_error, mapError_eq_error]

end Load

/-- A tuning that was loaded is accepted, and its counts fit. -/
theorem of_ofText {s : String} {t : Tuning} (h : ofText s = .ok t) :
    t.check = .ok () ∧ t.leaves.Fit := by
  unfold Tuning.ofText at h
  split at h
  · unfold ofToml at h
    obtain ⟨t', hread, h⟩ := bind_eq_ok.mp h
    obtain ⟨u, hcheck, h⟩ := bind_eq_ok.mp h
    cases h
    rw [mapError_eq_ok] at hread hcheck
    exact ⟨hcheck, fit_of_read hread⟩
  · cases h

/-- A tuning that was loaded is loaded again from the document that it is written as. -/
theorem ofText_render {s : String} {t : Tuning} (h : ofText s = .ok t) :
    ofText t.render = .ok t := by
  obtain ⟨hcheck, hfit⟩ := of_ofText h
  have hprintable := printable_toToml (plain_leaves hcheck)
  have hparse : Toml.parse? t.render = some (Toml.settled t.toToml).toToml :=
    Toml.parse?_render hprintable (depth_toToml t ▸ by decide)
  exact (((states_toToml hfit).settled hprintable).ofText_eq_ok hparse).mpr ⟨hcheck, rfl⟩

/-- A document overrides just the keys that it states, and any keys of a tuning can be stated. It
is refused exactly when the tuning with the stated values, and the default elsewhere, is refused,
for the same breach, and that tuning is loaded otherwise. A tuning is refused for the first key, in
the order of the rules, whose value is out of range. Whatever was loaded is loaded again from the
document that it is written as. -/
theorem document_overrides_stated :
    (∀ (s : String) (v : Toml) (t : Tuning) (stated : List String → Bool),
      Toml.parse? s = some v → t.States stated v →
      ((∃ e, ofText s = .error e) ↔ (t.overlay stated).check ≠ .ok ()) ∧
      (∀ t', ofText s = .ok t' ↔ (t.overlay stated).check = .ok () ∧ t' = t.overlay stated) ∧
      ∀ b, ofText s = .error (.breach b) ↔ (t.overlay stated).check = .error b) ∧
    (∀ (t : Tuning) (stated : List String → Bool), t.leaves.Plain → t.leaves.Fit →
      ∃ s v, Toml.parse? s = some v ∧ t.States stated v) ∧
    (∀ t : Tuning, t.check = .ok () ↔
      t.heuristic.InRange ∧ t.embedding.InRange ∧ t.external.timeoutSeconds ≠ 0) ∧
    (∀ (t : Tuning) (b : Breach), (t.check = .error b ↔ FirstBroken t.rules b) ∧
      ∃ told, b.message = b.key ++ told) ∧
    ∀ (s : String) (t : Tuning), ofText s = .ok t → ofText t.render = .ok t := by
  refine ⟨fun s v t stated hs h => ⟨?_, fun _ => h.ofText_eq_ok hs, fun b => ?_⟩,
    fun _ stated hplain hfit => exists_states hplain hfit stated,
    fun _ => check_eq_ok_iff_inRange,
    fun t b => ⟨(checks_check t).eq_error b, b.exists_message_eq⟩, fun _ _ => ofText_render⟩
  · rw [ne_ok_iff]
    constructor
    · rintro ⟨e, he⟩
      obtain ⟨b, hb, -⟩ := (h.ofText_eq_error hs).mp he
      exact ⟨b, hb⟩
    · rintro ⟨b, hb⟩
      exact ⟨.breach b, (h.ofText_eq_error hs).mpr ⟨b, hb, rfl⟩⟩
  · rw [h.ofText_eq_error hs]
    constructor
    · rintro ⟨b', hb', heq⟩
      cases heq
      exact hb'
    · intro hb
      exact ⟨b, hb, rfl⟩

/-- A document with its sections out of order, half a section and a key that is not known. -/
def sparse : String := "[heuristic]
queue_floor = 0.25 # not too low
colour = 'red'

[embedding.job_caps]
nodes = 4096.0

[embedding]
numeric_weight = 2
"

/-- A tuning whose timeout the document leaves out. -/
def hasty : Tuning where
  heuristic := { queueFloor := 0.25 }
  embedding := { jobCaps := { nodes := 4096 }, numericWeight := 2 }
  external := { timeoutSeconds := 5 }

/-- The keys that the document states. -/
def named (path : List String) : Bool :=
  path = ["heuristic", "queue_floor"] || path = ["embedding", "job_caps", "nodes"]
    || path = ["embedding", "numeric_weight"]

theorem document_overrides_stated_sparse :
    ofText sparse = .ok { hasty with external := {} } ∧
      ofText ({ hasty with external := {} } : Tuning).render
        = .ok { hasty with external := {} } := by
  have hparse : Toml.parse? sparse
      = some ((Toml.parse? sparse).get (by decide +kernel)) := (Option.some_get _).symm
  have hstates : hasty.States named ((Toml.parse? sparse).get (by decide +kernel)) := by
    decide +kernel
  obtain ⟨hstated, -, -, -, hagain⟩ := document_overrides_stated
  obtain ⟨-, hload, -⟩ := hstated sparse _ hasty named hparse hstates
  have hsparse : ofText sparse = .ok { hasty with external := {} } := (hload _).mpr ⟨rfl, rfl⟩
  exact ⟨hsparse, hagain _ _ hsparse⟩

end Tuning

end Placement
