import Placement.Toml.Reader
import Placement.Tuning
import Placement.Tuning.Form
/-
  The tuning document: its sections, the ranges of its values, and how it is read and written.
-/
namespace Placement

/-- The names of the scorers. -/
def ScorerKind.codec : Codec ScorerKind :=
  .choice [("heuristic", .heuristic), ("embedding", .embedding)] ScorerKind.name

/-- The names of the node checks. -/
def NodeCheck.codec : Codec NodeCheck :=
  .choice [("total", .total), ("available", .available)] NodeCheck.name

/-- The keys of the gate. -/
def GateTuning.form : Form GateTuning where
  name := "FeasibilityConfig"
  keys := [.of "node_check" NodeCheck.codec (·.nodeCheck) fun v t => { t with nodeCheck := v }]

/-- The keys of the heuristic. -/
def HeuristicTuning.form : Form HeuristicTuning where
  name := "HeuristicWeights"
  keys := [
    .of "exact_type" .double (·.exactType) fun v t => { t with exactType := v },
    .of "compatible_type" .double (·.compatibleType) fun v t => { t with compatibleType := v },
    .of "storage_mismatch" .double (·.storageMismatch) fun v t => { t with storageMismatch := v },
    .of "default_type" .double (·.defaultType) fun v t => { t with defaultType := v },
    .of "site_affinity" .flag (·.siteAffinity) fun v t => { t with siteAffinity := v },
    .of "same_system" .double (·.sameSystem) fun v t => { t with sameSystem := v },
    .of "same_site" .double (·.sameSite) fun v t => { t with sameSite := v },
    .of "cross_site" .double (·.crossSite) fun v t => { t with crossSite := v },
    .of "queue_step" .double (·.queueStep) fun v t => { t with queueStep := v },
    .of "queue_floor" .double (·.queueFloor) fun v t => { t with queueFloor := v },
    .of "delay_decay" .double (·.delayDecay) fun v t => { t with delayDecay := v },
    .of "delay_floor" .double (·.delayFloor) fun v t => { t with delayFloor := v },
    .of "precision" .count32 (·.precision) fun v t => { t with precision := v }]

/-- The keys of the caps of a job. -/
def JobCaps.form : Form JobCaps where
  name := "JobCaps"
  keys := [
    .of "nodes" .double (·.nodes) fun v t => { t with nodes := v },
    .of "walltime" .double (·.walltime) fun v t => { t with walltime := v },
    .of "memory_gb" .double (·.memory) fun v t => { t with memory := v },
    .of "storage_gb" .double (·.storage) fun v t => { t with storage := v }]

/-- The keys of the caps of a system. -/
def SystemCaps.form : Form SystemCaps where
  name := "SystemCaps"
  keys := [
    .of "nodes" .double (·.nodes) fun v t => { t with nodes := v },
    .of "node_speed" .double (·.nodeSpeed) fun v t => { t with nodeSpeed := v },
    .of "memory_gb" .double (·.memory) fun v t => { t with memory := v },
    .of "storage_gb" .double (·.storage) fun v t => { t with storage := v }]

/-- The keys of the embedding. -/
def EmbeddingTuning.form : Form EmbeddingTuning where
  name := "EmbeddingConfig"
  keys := [
    .of "job_caps" (JobCaps.form.codec {}) (·.jobCaps) fun v t => { t with jobCaps := v },
    .of "system_caps" (SystemCaps.form.codec {}) (·.systemCaps)
      fun v t => { t with systemCaps := v },
    .of "unbounded_storage_gb" .double (·.unboundedStorage)
      fun v t => { t with unboundedStorage := v },
    .of "numeric_weight" .double (·.numericWeight) fun v t => { t with numericWeight := v },
    .of "type_weight" .double (·.typeWeight) fun v t => { t with typeWeight := v },
    .of "site_weight" .double (·.siteWeight) fun v t => { t with siteWeight := v },
    .of "baseline_speed" .double (·.baselineSpeed) fun v t => { t with baselineSpeed := v },
    .of "static_weight" .double (·.staticWeight) fun v t => { t with staticWeight := v },
    .of "dynamic_weight" .double (·.dynamicWeight) fun v t => { t with dynamicWeight := v },
    .of "headroom_weight" .double (·.headroomWeight) fun v t => { t with headroomWeight := v },
    .of "slowdown_weight" .double (·.slowdownWeight) fun v t => { t with slowdownWeight := v }]

/-- The keys of external bidders. -/
def ExternalTuning.form : Form ExternalTuning where
  name := "ExternalConfig"
  keys := [
    .of "timeout_secs" .count64 (·.timeoutSeconds) fun v t => { t with timeoutSeconds := v }]

/-- The keys of a document. -/
def Tuning.form : Form Tuning where
  name := "BidderConfig"
  keys := [
    .of "scorer" ScorerKind.codec (·.scorer) fun v t => { t with scorer := v },
    .of "feasibility" (GateTuning.form.codec {}) (·.gate) fun v t => { t with gate := v },
    .of "heuristic" (HeuristicTuning.form.codec {}) (·.heuristic)
      fun v t => { t with heuristic := v },
    .of "embedding" (EmbeddingTuning.form.codec {}) (·.embedding)
      fun v t => { t with embedding := v },
    .of "external" (ExternalTuning.form.codec {}) (·.external)
      fun v t => { t with external := v }]

/-- A tuning that would make scores meaningless. -/
inductive Tuning.Breach where
  | outsideUnit (key : String) (value : Float)
  | negative (key : String) (value : Float)
  | notPositive (key : String) (value : Float)
  | tooPrecise (places : UInt32)
  | noTimeout
  deriving DecidableEq

/-- A breach in words. -/
def Tuning.Breach.message : Tuning.Breach → String
  | .outsideUnit key value => key ++ " must be within [0, 1], got " ++ Decimal.plain.write value
  | .negative key value => key ++ " must be non-negative, got " ++ Decimal.plain.write value
  | .notPositive key value => key ++ " must be positive, got " ++ Decimal.plain.write value
  | .tooPrecise places =>
    "heuristic.precision must be at most 12, got " ++ Decimal.digitText places.toNat
  | .noTimeout => "external.timeout_secs must be positive"

namespace Tuning

/-- Whether a value may be a level: a number from 0 to 1. -/
def isLevel (x : Float) : Bool := x.isFinite && 0 ≤ x && x ≤ 1

/-- Whether a value may be a weight: finite and not negative. -/
def isWeight (x : Float) : Bool := x.isFinite && 0 ≤ x

/-- Whether a value may be a cap: finite and positive. -/
def isCap (x : Float) : Bool := x.isFinite && 0 < x

/-- The levels of the heuristic, in the order they are checked. -/
def levels (t : HeuristicTuning) : List (String × Float) := [
  ("heuristic.exact_type", t.exactType),
  ("heuristic.compatible_type", t.compatibleType),
  ("heuristic.storage_mismatch", t.storageMismatch),
  ("heuristic.default_type", t.defaultType),
  ("heuristic.same_system", t.sameSystem),
  ("heuristic.same_site", t.sameSite),
  ("heuristic.cross_site", t.crossSite),
  ("heuristic.queue_step", t.queueStep),
  ("heuristic.queue_floor", t.queueFloor),
  ("heuristic.delay_floor", t.delayFloor)]

/-- The caps of the embedding, in the order they are checked. -/
def caps (t : EmbeddingTuning) : List (String × Float) := [
  ("embedding.job_caps.nodes", t.jobCaps.nodes),
  ("embedding.job_caps.walltime", t.jobCaps.walltime),
  ("embedding.job_caps.memory_gb", t.jobCaps.memory),
  ("embedding.job_caps.storage_gb", t.jobCaps.storage),
  ("embedding.system_caps.nodes", t.systemCaps.nodes),
  ("embedding.system_caps.node_speed", t.systemCaps.nodeSpeed),
  ("embedding.system_caps.memory_gb", t.systemCaps.memory),
  ("embedding.system_caps.storage_gb", t.systemCaps.storage),
  ("embedding.unbounded_storage_gb", t.unboundedStorage),
  ("embedding.baseline_speed", t.baselineSpeed)]

/-- The weights of the embedding, in the order they are checked. -/
def weights (t : EmbeddingTuning) : List (String × Float) := [
  ("embedding.numeric_weight", t.numericWeight),
  ("embedding.type_weight", t.typeWeight),
  ("embedding.site_weight", t.siteWeight),
  ("embedding.static_weight", t.staticWeight),
  ("embedding.dynamic_weight", t.dynamicWeight),
  ("embedding.headroom_weight", t.headroomWeight),
  ("embedding.slowdown_weight", t.slowdownWeight)]

/-- The first of some named values that fails a test is a breach. -/
def checkAll (test : Float → Bool) (breach : String → Float → Breach)
    (values : List (String × Float)) : Except Breach Unit :=
  match values.find? fun entry => !test entry.2 with
  | some (key, value) => .error (breach key value)
  | none => .ok ()

/-- The first value out of range: levels, decay, precision, caps, weights, timeout. -/
def check (t : Tuning) : Except Breach Unit := do
  checkAll isLevel .outsideUnit (levels t.heuristic)
  checkAll isWeight .negative [("heuristic.delay_decay", t.heuristic.delayDecay)]
  if 12 < t.heuristic.precision then throw (.tooPrecise t.heuristic.precision)
  checkAll isCap .notPositive (caps t.embedding)
  checkAll isWeight .negative (weights t.embedding)
  if t.external.timeoutSeconds = 0 then throw .noTimeout

/-- Why a tuning cannot be loaded. -/
inductive LoadError where
  | notToml
  | data (fault : DataFault)
  | breach (breach : Breach)

/-- The heading under which a fault of a document is reported. -/
def documentHeading : String := "TOML parse error"

/-- Reads a tuning from the data of a document. -/
def ofToml (v : Toml) : Except LoadError Tuning := do
  let t ← (Tuning.form.read {} v).mapError .data
  t.check.mapError .breach
  return t

/-- Reads a tuning from a document. -/
def ofText (s : String) : Except LoadError Tuning :=
  match Toml.parse? s with
  | some v => ofToml v
  | none => .error .notToml

/-- The data of a tuning. -/
def toToml (t : Tuning) : Toml := Tuning.form.write t

/-- A tuning as a document. -/
def render (t : Tuning) : String := t.toToml.render

end Tuning

end Placement
