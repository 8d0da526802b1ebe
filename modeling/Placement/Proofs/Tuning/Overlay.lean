import Placement.Proofs.Tuning.Section
import Placement.Tuning.Document
/-
  What a document overrides. `leaves` lists the keys of a section and the values of a tuning under
  them, and `overlay` is what the section comes to when only some keys are stated with its values.
  `Tuning.States.read`: a document that states these keys and no other known ones is read as just
  that overlay, given that it holds no key twice (`Toml.Distinct`).
-/
namespace Placement

/-! ## Keys and what is stated of them -/

namespace GateTuning

def leaves (t : GateTuning) : Leaves := [(["node_check"], .name t.nodeCheck.name)]

/-- A gate on the stated keys, and the default elsewhere. -/
def overlay (t : GateTuning) (stated : List String → Bool) : GateTuning :=
  let default : GateTuning := {}
  { nodeCheck := bif stated ["node_check"] then t.nodeCheck else default.nodeCheck }

end GateTuning

namespace HeuristicTuning

def leaves (t : HeuristicTuning) : Leaves := [
  (["exact_type"], .number t.exactType),
  (["compatible_type"], .number t.compatibleType),
  (["storage_mismatch"], .number t.storageMismatch),
  (["default_type"], .number t.defaultType),
  (["site_affinity"], .flag t.siteAffinity),
  (["same_system"], .number t.sameSystem),
  (["same_site"], .number t.sameSite),
  (["cross_site"], .number t.crossSite),
  (["queue_step"], .number t.queueStep),
  (["queue_floor"], .number t.queueFloor),
  (["delay_decay"], .number t.delayDecay),
  (["delay_floor"], .number t.delayFloor),
  (["precision"], .count t.precision.toNat)]

/-- A heuristic on the stated keys, and the default elsewhere. -/
def overlay (t : HeuristicTuning) (stated : List String → Bool) : HeuristicTuning :=
  let default : HeuristicTuning := {}
  { exactType := bif stated ["exact_type"] then t.exactType else default.exactType
    compatibleType :=
      bif stated ["compatible_type"] then t.compatibleType else default.compatibleType
    storageMismatch :=
      bif stated ["storage_mismatch"] then t.storageMismatch else default.storageMismatch
    defaultType := bif stated ["default_type"] then t.defaultType else default.defaultType
    siteAffinity := bif stated ["site_affinity"] then t.siteAffinity else default.siteAffinity
    sameSystem := bif stated ["same_system"] then t.sameSystem else default.sameSystem
    sameSite := bif stated ["same_site"] then t.sameSite else default.sameSite
    crossSite := bif stated ["cross_site"] then t.crossSite else default.crossSite
    queueStep := bif stated ["queue_step"] then t.queueStep else default.queueStep
    queueFloor := bif stated ["queue_floor"] then t.queueFloor else default.queueFloor
    delayDecay := bif stated ["delay_decay"] then t.delayDecay else default.delayDecay
    delayFloor := bif stated ["delay_floor"] then t.delayFloor else default.delayFloor
    precision := bif stated ["precision"] then t.precision else default.precision }

end HeuristicTuning

namespace JobCaps

def leaves (t : JobCaps) : Leaves := [
  (["nodes"], .number t.nodes),
  (["walltime"], .number t.walltime),
  (["memory_gb"], .number t.memory),
  (["storage_gb"], .number t.storage)]

/-- The caps of a job on the stated keys, and the default elsewhere. -/
def overlay (t : JobCaps) (stated : List String → Bool) : JobCaps :=
  let default : JobCaps := {}
  { nodes := bif stated ["nodes"] then t.nodes else default.nodes
    walltime := bif stated ["walltime"] then t.walltime else default.walltime
    memory := bif stated ["memory_gb"] then t.memory else default.memory
    storage := bif stated ["storage_gb"] then t.storage else default.storage }

end JobCaps

namespace SystemCaps

def leaves (t : SystemCaps) : Leaves := [
  (["nodes"], .number t.nodes),
  (["node_speed"], .number t.nodeSpeed),
  (["memory_gb"], .number t.memory),
  (["storage_gb"], .number t.storage)]

/-- The caps of a system on the stated keys, and the default elsewhere. -/
def overlay (t : SystemCaps) (stated : List String → Bool) : SystemCaps :=
  let default : SystemCaps := {}
  { nodes := bif stated ["nodes"] then t.nodes else default.nodes
    nodeSpeed := bif stated ["node_speed"] then t.nodeSpeed else default.nodeSpeed
    memory := bif stated ["memory_gb"] then t.memory else default.memory
    storage := bif stated ["storage_gb"] then t.storage else default.storage }

end SystemCaps

namespace EmbeddingTuning

def leaves (t : EmbeddingTuning) : Leaves :=
  t.jobCaps.leaves.under "job_caps" ++ t.systemCaps.leaves.under "system_caps" ++ [
    (["unbounded_storage_gb"], .number t.unboundedStorage),
    (["numeric_weight"], .number t.numericWeight),
    (["type_weight"], .number t.typeWeight),
    (["site_weight"], .number t.siteWeight),
    (["baseline_speed"], .number t.baselineSpeed),
    (["static_weight"], .number t.staticWeight),
    (["dynamic_weight"], .number t.dynamicWeight),
    (["headroom_weight"], .number t.headroomWeight),
    (["slowdown_weight"], .number t.slowdownWeight)]

/-- An embedding on the stated keys, and the default elsewhere. -/
def overlay (t : EmbeddingTuning) (stated : List String → Bool) : EmbeddingTuning :=
  let default : EmbeddingTuning := {}
  { jobCaps := t.jobCaps.overlay fun path => stated ("job_caps" :: path)
    systemCaps := t.systemCaps.overlay fun path => stated ("system_caps" :: path)
    unboundedStorage :=
      bif stated ["unbounded_storage_gb"] then t.unboundedStorage else default.unboundedStorage
    numericWeight := bif stated ["numeric_weight"] then t.numericWeight else default.numericWeight
    typeWeight := bif stated ["type_weight"] then t.typeWeight else default.typeWeight
    siteWeight := bif stated ["site_weight"] then t.siteWeight else default.siteWeight
    baselineSpeed := bif stated ["baseline_speed"] then t.baselineSpeed else default.baselineSpeed
    staticWeight := bif stated ["static_weight"] then t.staticWeight else default.staticWeight
    dynamicWeight := bif stated ["dynamic_weight"] then t.dynamicWeight else default.dynamicWeight
    headroomWeight :=
      bif stated ["headroom_weight"] then t.headroomWeight else default.headroomWeight
    slowdownWeight :=
      bif stated ["slowdown_weight"] then t.slowdownWeight else default.slowdownWeight }

end EmbeddingTuning

namespace ExternalTuning

def leaves (t : ExternalTuning) : Leaves := [(["timeout_secs"], .count t.timeoutSeconds.toNat)]

/-- The external bidders on the stated keys, and the default elsewhere. -/
def overlay (t : ExternalTuning) (stated : List String → Bool) : ExternalTuning :=
  let default : ExternalTuning := {}
  { timeoutSeconds :=
      bif stated ["timeout_secs"] then t.timeoutSeconds else default.timeoutSeconds }

end ExternalTuning

namespace Tuning

/-- The paths of the sections of a document. -/
def sections : List (List String) := [[], ["feasibility"], ["heuristic"], ["embedding"],
  ["embedding", "job_caps"], ["embedding", "system_caps"], ["external"]]

/-- The keys of a document and the values of a tuning under them. -/
def leaves (t : Tuning) : Leaves :=
  [(["scorer"], .name t.scorer.name)] ++ t.gate.leaves.under "feasibility"
    ++ t.heuristic.leaves.under "heuristic" ++ t.embedding.leaves.under "embedding"
    ++ t.external.leaves.under "external"

/-- A tuning on the stated keys, and the default elsewhere. -/
def overlay (t : Tuning) (stated : List String → Bool) : Tuning :=
  let default : Tuning := {}
  { scorer := bif stated ["scorer"] then t.scorer else default.scorer
    gate := t.gate.overlay fun path => stated ("feasibility" :: path)
    heuristic := t.heuristic.overlay fun path => stated ("heuristic" :: path)
    embedding := t.embedding.overlay fun path => stated ("embedding" :: path)
    external := t.external.overlay fun path => stated ("external" :: path) }

end Tuning

/-! ## Sections -/

theorem ScorerKind.read_name {kind : ScorerKind} (w : Toml)
    (h : (Leaf.name kind.name).StatedBy w) : codec.read w = .ok kind := by
  cases h
  cases kind <;> rfl

theorem NodeCheck.read_name {check : NodeCheck} (w : Toml)
    (h : (Leaf.name check.name).StatedBy w) : codec.read w = .ok check := by
  cases h
  cases check <;> rfl

section Read

variable {v : Toml} (h : v.Distinct) (htable : ∃ entries, v = .table entries)
include h htable

theorem GateTuning.read_overlay (t : GateTuning) (hv : t.leaves.StatedIn v) :
    form.read {} v = .ok (t.overlay v.mentions) := by
  obtain ⟨entries, rfl⟩ := htable
  refine Form.read_overlay h.nodup ?_ ?_ fun _ => rfl
  · simp only [form, List.forall_mem_singleton]
    refine .of_leaf t.nodeCheck hv (by simp [leaves]) NodeCheck.read_name ?_
    intro met stated h
    simp [overlay, among, h]
  · intro name hname met stated
    simp only [form, Key.of, List.forall_mem_cons] at hname
    simp [overlay, among, hname]

theorem HeuristicTuning.read_overlay (t : HeuristicTuning) (hv : t.leaves.StatedIn v) :
    form.read {} v = .ok (t.overlay v.mentions) := by
  obtain ⟨entries, rfl⟩ := htable
  refine Form.read_overlay h.nodup ?_ ?_ fun _ => rfl
  · simp only [form, List.forall_mem_cons]
    refine ⟨.of_leaf t.exactType hv (by simp [leaves]) Codec.read_number ?_,
      .of_leaf t.compatibleType hv (by simp [leaves]) Codec.read_number ?_,
      .of_leaf t.storageMismatch hv (by simp [leaves]) Codec.read_number ?_,
      .of_leaf t.defaultType hv (by simp [leaves]) Codec.read_number ?_,
      .of_leaf t.siteAffinity hv (by simp [leaves]) Codec.read_flag ?_,
      .of_leaf t.sameSystem hv (by simp [leaves]) Codec.read_number ?_,
      .of_leaf t.sameSite hv (by simp [leaves]) Codec.read_number ?_,
      .of_leaf t.crossSite hv (by simp [leaves]) Codec.read_number ?_,
      .of_leaf t.queueStep hv (by simp [leaves]) Codec.read_number ?_,
      .of_leaf t.queueFloor hv (by simp [leaves]) Codec.read_number ?_,
      .of_leaf t.delayDecay hv (by simp [leaves]) Codec.read_number ?_,
      .of_leaf t.delayFloor hv (by simp [leaves]) Codec.read_number ?_,
      .of_leaf t.precision hv (by simp [leaves]) Codec.read_count32 ?_,
      fun _ h => absurd h List.not_mem_nil⟩
    all_goals
      intro met stated h
      simp [overlay, among, h]
  · intro name hname met stated
    simp only [form, Key.of, List.forall_mem_cons] at hname
    simp [overlay, among, hname]

theorem JobCaps.read_overlay (t : JobCaps) (hv : t.leaves.StatedIn v) :
    form.read {} v = .ok (t.overlay v.mentions) := by
  obtain ⟨entries, rfl⟩ := htable
  refine Form.read_overlay h.nodup ?_ ?_ fun _ => rfl
  · simp only [form, List.forall_mem_cons]
    refine ⟨.of_leaf t.nodes hv (by simp [leaves]) Codec.read_number ?_,
      .of_leaf t.walltime hv (by simp [leaves]) Codec.read_number ?_,
      .of_leaf t.memory hv (by simp [leaves]) Codec.read_number ?_,
      .of_leaf t.storage hv (by simp [leaves]) Codec.read_number ?_,
      fun _ h => absurd h List.not_mem_nil⟩
    all_goals
      intro met stated h
      simp [overlay, among, h]
  · intro name hname met stated
    simp only [form, Key.of, List.forall_mem_cons] at hname
    simp [overlay, among, hname]

theorem SystemCaps.read_overlay (t : SystemCaps) (hv : t.leaves.StatedIn v) :
    form.read {} v = .ok (t.overlay v.mentions) := by
  obtain ⟨entries, rfl⟩ := htable
  refine Form.read_overlay h.nodup ?_ ?_ fun _ => rfl
  · simp only [form, List.forall_mem_cons]
    refine ⟨.of_leaf t.nodes hv (by simp [leaves]) Codec.read_number ?_,
      .of_leaf t.nodeSpeed hv (by simp [leaves]) Codec.read_number ?_,
      .of_leaf t.memory hv (by simp [leaves]) Codec.read_number ?_,
      .of_leaf t.storage hv (by simp [leaves]) Codec.read_number ?_,
      fun _ h => absurd h List.not_mem_nil⟩
    all_goals
      intro met stated h
      simp [overlay, among, h]
  · intro name hname met stated
    simp only [form, Key.of, List.forall_mem_cons] at hname
    simp [overlay, among, hname]

theorem EmbeddingTuning.read_overlay (t : EmbeddingTuning)
    (htables : v.TablesAt [["job_caps"], ["system_caps"]]) (hv : t.leaves.StatedIn v) :
    form.read {} v = .ok (t.overlay v.mentions) := by
  obtain ⟨entries, rfl⟩ := htable
  obtain ⟨hcaps, hplain⟩ := Leaves.statedIn_append.mp hv
  obtain ⟨hjob, hsystem⟩ := Leaves.statedIn_append.mp hcaps
  refine Form.read_overlay h.nodup ?_ ?_ fun _ => rfl
  · simp only [form, List.forall_mem_cons]
    refine ⟨.of_section t.jobCaps.overlay (fun w hw => JobCaps.read_overlay (h.of_lookup hw)
        (htables.of_lookup (by simp) hw) t.jobCaps (hjob.of_under hw)) ?_,
      .of_section t.systemCaps.overlay (fun w hw => SystemCaps.read_overlay (h.of_lookup hw)
        (htables.of_lookup (by simp) hw) t.systemCaps (hsystem.of_under hw)) ?_,
      .of_leaf t.unboundedStorage hplain (by simp) Codec.read_number ?_,
      .of_leaf t.numericWeight hplain (by simp) Codec.read_number ?_,
      .of_leaf t.typeWeight hplain (by simp) Codec.read_number ?_,
      .of_leaf t.siteWeight hplain (by simp) Codec.read_number ?_,
      .of_leaf t.baselineSpeed hplain (by simp) Codec.read_number ?_,
      .of_leaf t.staticWeight hplain (by simp) Codec.read_number ?_,
      .of_leaf t.dynamicWeight hplain (by simp) Codec.read_number ?_,
      .of_leaf t.headroomWeight hplain (by simp) Codec.read_number ?_,
      .of_leaf t.slowdownWeight hplain (by simp) Codec.read_number ?_,
      fun _ h => absurd h List.not_mem_nil⟩
    case refine_1 | refine_2 =>
      intro met stated
      simp [overlay, among]
    all_goals
      intro met stated h
      simp [overlay, among, h]
  · intro name hname met stated
    simp only [form, Key.of, List.forall_mem_cons] at hname
    simp [overlay, among, hname]

theorem ExternalTuning.read_overlay (t : ExternalTuning) (hv : t.leaves.StatedIn v) :
    form.read {} v = .ok (t.overlay v.mentions) := by
  obtain ⟨entries, rfl⟩ := htable
  refine Form.read_overlay h.nodup ?_ ?_ fun _ => rfl
  · simp only [form, List.forall_mem_singleton]
    refine .of_leaf t.timeoutSeconds hv (by simp [leaves]) Codec.read_count64 ?_
    intro met stated h
    simp [overlay, among, h]
  · intro name hname met stated
    simp only [form, Key.of, List.forall_mem_cons] at hname
    simp [overlay, among, hname]

theorem Tuning.read_overlay (t : Tuning) (htables : v.TablesAt sections)
    (hv : t.leaves.StatedIn v) : form.read {} v = .ok (t.overlay v.mentions) := by
  obtain ⟨entries, rfl⟩ := htable
  obtain ⟨hrest, hexternal⟩ := Leaves.statedIn_append.mp hv
  obtain ⟨hrest, hembedding⟩ := Leaves.statedIn_append.mp hrest
  obtain ⟨hrest, hheuristic⟩ := Leaves.statedIn_append.mp hrest
  obtain ⟨hscorer, hgate⟩ := Leaves.statedIn_append.mp hrest
  have hcaps {w : Toml} (hw : List.lookup "embedding" entries = some w) :
      w.TablesAt [["job_caps"], ["system_caps"]] := by
    intro path hpath w' hw'
    refine htables ("embedding" :: path) ?_ w' ((Toml.at?_cons hw path).trans hw')
    simp only [List.mem_cons, List.not_mem_nil, or_false] at hpath
    rcases hpath with rfl | rfl <;> simp [sections]
  refine Form.read_overlay h.nodup ?_ ?_ fun _ => rfl
  · simp only [form, List.forall_mem_cons]
    refine ⟨.of_leaf t.scorer hscorer List.mem_cons_self ScorerKind.read_name ?_,
      .of_section t.gate.overlay (fun w hw => GateTuning.read_overlay (h.of_lookup hw)
        (htables.of_lookup (by simp [sections]) hw) t.gate (hgate.of_under hw)) ?_,
      .of_section t.heuristic.overlay (fun w hw => HeuristicTuning.read_overlay (h.of_lookup hw)
        (htables.of_lookup (by simp [sections]) hw) t.heuristic (hheuristic.of_under hw)) ?_,
      .of_section t.embedding.overlay (fun w hw => EmbeddingTuning.read_overlay (h.of_lookup hw)
        (htables.of_lookup (by simp [sections]) hw) t.embedding (hcaps hw)
        (hembedding.of_under hw)) ?_,
      .of_section t.external.overlay (fun w hw => ExternalTuning.read_overlay (h.of_lookup hw)
        (htables.of_lookup (by simp [sections]) hw) t.external (hexternal.of_under hw)) ?_,
      fun _ h => absurd h List.not_mem_nil⟩
    case refine_1 =>
      intro met stated h
      simp [overlay, among, h]
    all_goals
      intro met stated
      simp [overlay, among]
  · intro name hname met stated
    simp only [form, Key.of, List.forall_mem_cons] at hname
    simp [overlay, among, hname]

end Read

/-! ## Documents -/

/-- A document states just some of the keys with the values of a tuning. It may have sections in any
order, and keys that are not known. -/
structure Tuning.States (t : Tuning) (stated : List String → Bool) (v : Toml) : Prop where
  tables : v.TablesAt sections
  mentions : ∀ leaf ∈ t.leaves, v.mentions leaf.1 = stated leaf.1
  statedIn : t.leaves.StatedIn v

instance (t : Tuning) (stated : List String → Bool) (v : Toml) : Decidable (t.States stated v) :=
  decidable_of_iff (v.TablesAt Tuning.sections ∧
      (∀ leaf ∈ t.leaves, v.mentions leaf.1 = stated leaf.1) ∧ t.leaves.StatedIn v)
    ⟨fun ⟨htables, hmentions, hstated⟩ => ⟨htables, hmentions, hstated⟩,
      fun ⟨htables, hmentions, hstated⟩ => ⟨htables, hmentions, hstated⟩⟩

/-- An overlay looks at nothing but the keys. -/
theorem Tuning.overlay_congr {t : Tuning} {stated stated' : List String → Bool}
    (h : ∀ leaf ∈ t.leaves, stated leaf.1 = stated' leaf.1) :
    t.overlay stated = t.overlay stated' := by
  simp only [leaves, GateTuning.leaves, HeuristicTuning.leaves, EmbeddingTuning.leaves,
    JobCaps.leaves, SystemCaps.leaves, ExternalTuning.leaves, Leaves.under, List.map_cons,
    List.map_nil, List.cons_append, List.nil_append, List.forall_mem_cons] at h
  simp [overlay, GateTuning.overlay, HeuristicTuning.overlay, EmbeddingTuning.overlay,
    JobCaps.overlay, SystemCaps.overlay, ExternalTuning.overlay, h]

/-- What a document states is read, and the default elsewhere. -/
theorem Tuning.States.read {t : Tuning} {stated : List String → Bool} {v : Toml}
    (h : t.States stated v) (hv : v.Distinct) : form.read {} v = .ok (t.overlay stated) := by
  rw [← overlay_congr h.mentions]
  exact read_overlay hv (h.tables [] List.mem_cons_self v rfl) t h.tables h.statedIn

end Placement
