import Placement.Record.Shape
/-
  The class of a job's workload or of a system. Four classes are known to the scorers; any other
  non-empty label is kept as it is.
-/
namespace Placement

/-- A class of workload or system. -/
inductive ResourceType where
  | hpc
  | ai
  | hybrid
  | storage
  | other (label : String)
  deriving DecidableEq

namespace ResourceType

/-- The label that a class is written with. -/
def label : ResourceType → String
  | .hpc => "HPC"
  | .ai => "AI"
  | .hybrid => "HYBRID"
  | .storage => "STORAGE"
  | .other label => label

/-- The class of a label. No class has an empty one. -/
def ofLabel? (label : String) : Option ResourceType :=
  if label = "HPC" then some .hpc
  else if label = "AI" then some .ai
  else if label = "HYBRID" then some .hybrid
  else if label = "STORAGE" then some .storage
  else if label = "" then none
  else some (.other label)

/-- Whether jobs of this class run on systems of the other compute classes. -/
def isCompute : ResourceType → Bool
  | .hpc | .ai | .hybrid => true
  | .storage | .other _ => false

/-- Whether a class is none of the known ones. -/
def isOther : ResourceType → Bool
  | .other _ => true
  | _ => false

/-- A class is written back as the label it was read from. -/
theorem label_of_ofLabel? {s : String} {t : ResourceType} (h : ofLabel? s = some t) :
    t.label = s := by
  simp only [ofLabel?] at h
  repeat' split at h
  all_goals simp_all [label]
  all_goals simp [← h]

/-- Reads a class from its label. -/
def read (v : Json) : Except Fault ResourceType := do
  match ofLabel? (← readText v) with
  | some t => return t
  | none => throw .emptyLabel

/-- The label as JSON. -/
def toJson (t : ResourceType) : Json := .text t.label

end ResourceType

end Placement
