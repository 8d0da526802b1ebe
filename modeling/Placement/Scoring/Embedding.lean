import Placement.Scoring.Assessment
/-
  The embedding scorer. Jobs and systems become unit vectors of 14 slots,

    numeric (5) | type, one slot each and one for others (4 + 1) | site, likewise (3 + 1),

  whose product is their similarity. Numeric slots are scaled by a logarithm that saturates at a
  cap. A bid blends the similarity with a live term of free nodes and predicted slowdown.

  The formulas run in any scalar, so that they can be computed in doubles and reasoned about in
  exact numbers.
-/
namespace Placement.Embedding

open Scalar (ofFloat ofCount greater clamp)

variable {α : Type} [Add α] [Sub α] [Mul α] [Div α] [Neg α] [OfNat α 0] [OfNat α 1] [Scalar α]

/-- Types with a slot of their own. -/
def knownTypes : Vector String 4 := #v["HPC", "AI", "HYBRID", "STORAGE"]

/-- Sites with a slot of their own. -/
def knownSites : Vector String 3 := #v["NERSC", "ALCF", "OLCF"]

/-- The features of a job or a system. -/
abbrev Features (α : Type) := Vector α 14

/-- The product of two vectors. -/
def dot (a b : Features α) : α := ((a.zipWith (· * ·) b).toList).foldl (· + ·) 0

/-- The length of a vector. -/
def norm (a : Features α) : α := Scalar.sqrt (dot a a)

/-- A vector of length 1 in the direction of the features, or the zero vector if they have no
direction. What is not finite counts as zero. -/
def normalize (raw : Features α) : Features α :=
  let finite := raw.map fun x => if Scalar.isFinite x then x else 0
  let length := norm finite
  if !Scalar.isFinite length || Scalar.less length (ofFloat 1e-12) then Vector.replicate 14 0
  else finite.map (· / length)

/-- Whether every slot is zero. -/
def isZero (v : Features Float) : Bool := v.all (· == 0)

/-- A quantity on a logarithmic scale from 0 to 1 that saturates at a cap. -/
def logScaled (curves : Curves α) (x cap : α) : α :=
  let bounded := if Scalar.isNaN x then 0 else clamp 0 cap x
  curves.log1p bounded / curves.log1p cap

/-- 1 for yes and 0 for no. -/
def flag (b : Bool) : α := if b then 1 else 0

/-- A weight in the slot of a label: its own if it is known, else the last one. -/
def oneHot {n : Nat} (known : Vector String n) (label : String) (weight : α) : Vector α (n + 1) :=
  (known.map fun k => if k = label then weight else 0).push
    (if known.contains label then 0 else weight)

omit [Add α] [Sub α] [Mul α] [Div α] [Neg α] [OfNat α 1] [Scalar α] in
/-- Every slot has the weight or nothing. -/
theorem oneHot_eq_or {n : Nat} (known : Vector String n) (label : String) (weight : α) (i : Nat)
    (hi : i < n + 1) :
    (oneHot known label weight)[i] = weight ∨ (oneHot known label weight)[i] = 0 := by
  unfold oneHot
  rw [Vector.getElem_push]
  split
  · rw [Vector.getElem_map]
    split
    · exact .inl rfl
    · exact .inr rfl
  · split
    · exact .inr rfl
    · exact .inl rfl

/-- The slots of a job or system before they are brought to length 1. -/
def features (t : EmbeddingTuning) (numeric : Vector α 5) (type : ResourceType) (site : String) :
    Features α :=
  let weighted : Vector α 5 := numeric.map fun x => ofFloat t.numericWeight * x
  let types : Vector α 5 := oneHot knownTypes type.label (ofFloat t.typeWeight)
  let sites : Vector α 4 := oneHot knownSites site (ofFloat t.siteWeight)
  weighted ++ types ++ sites

/-- The slots of a job. -/
def jobFeatures (curves : Curves α) (t : EmbeddingTuning) (job : Job) : Features α :=
  features t
    #v[logScaled curves (ofCount job.nodes) (ofFloat t.jobCaps.nodes),
      logScaled curves (ofFloat job.walltime) (ofFloat t.jobCaps.walltime),
      logScaled curves (ofFloat job.memory) (ofFloat t.jobCaps.memory),
      logScaled curves (ofFloat job.storage) (ofFloat t.jobCaps.storage),
      flag job.needsGpu]
    job.type job.site

/-- The storage of a system as a feature. -/
def storageFeature (t : EmbeddingTuning) (system : System) : Float :=
  match system.storage with
  | some storage => if storage.isFinite then storage else t.unboundedStorage
  | none => t.unboundedStorage

/-- The slots of a system. -/
def systemFeatures (curves : Curves α) (t : EmbeddingTuning) (system : System) : Features α :=
  features t
    #v[logScaled curves (ofCount system.nodes) (ofFloat t.systemCaps.nodes),
      logScaled curves (ofFloat system.nodeSpeed) (ofFloat t.systemCaps.nodeSpeed),
      logScaled curves (ofFloat system.nodeMemory) (ofFloat t.systemCaps.memory),
      logScaled curves (ofFloat (storageFeature t system)) (ofFloat t.systemCaps.storage),
      flag system.hasGpu]
    system.type system.site

/-- The embedding of a job. -/
def ofJob (curves : Curves α) (t : EmbeddingTuning) (job : Job) : Features α :=
  normalize (jobFeatures curves t job)

/-- The embedding of a system. -/
def ofSystem (curves : Curves α) (t : EmbeddingTuning) (system : System) : Features α :=
  normalize (systemFeatures curves t system)

/-- How alike a job and a system are, never negative. -/
def similarity (curves : Curves α) (t : EmbeddingTuning) (job : Job) (system : System) : α :=
  greater (dot (ofJob curves t job) (ofSystem curves t system)) 0

/-- Free nodes over requested ones, brought below 1. -/
def headroom (status : Status) (job : Job) : α :=
  let h := ofCount status.available / greater (ofCount job.nodes) 1
  h / (1 + h)

/-- Wait and predicted run over the requested time. -/
def slowdown (t : EmbeddingTuning) (c : Context) : α :=
  let pace :=
    greater (ofFloat c.system.nodeSpeed / greater (ofFloat t.baselineSpeed) (ofFloat 1e-9))
      (ofFloat 1e-3)
  let run := ofFloat c.job.walltime / greater pace (ofFloat 1e-9)
  (c.wait α + run) / greater (ofFloat c.job.walltime) 1

/-- The live term: free nodes and predicted slowdown. -/
def dynamic (curves : Curves α) (t : EmbeddingTuning) (c : Context) : α :=
  ofFloat t.headroomWeight * headroom c.status c.job
    + ofFloat t.slowdownWeight * curves.exp (-slowdown t c)

/-- The blend of similarity and live term. -/
def blend (t : EmbeddingTuning) (similarity dynamic : α) : α :=
  ofFloat t.staticWeight * similarity + ofFloat t.dynamicWeight * dynamic

/-- The raw score of a context; the gate is not looked at. -/
def value (curves : Curves α) (t : EmbeddingTuning) (c : Context) : α :=
  blend t (similarity curves t c.job c.system) (dynamic curves t c)

/-- The terms in words, to three places. -/
def detail (similarity dynamic : Float) : String :=
  "similarity=" ++ Decimal.fixed 3 similarity ++ " dynamic=" ++ Decimal.fixed 3 dynamic

/-- The embedding scorer. -/
def scorer (curves : Curves Float) (t : EmbeddingTuning) (check : NodeCheck) : Scorer :=
  Scorer.gated "embedding" check fun c =>
    (value curves t c, detail (similarity curves t c.job c.system) (dynamic curves t c))

end Placement.Embedding
