import Mathlib.Data.List.Nodup
import Placement.Proofs.Curves
import Placement.Proofs.Record.RoundTrip
import Placement.Scoring.Embedding
import Placement.Scoring.Heuristic
/-
  What a type label means. Labels are spelled out where they are read, where they are written and in
  the vocabulary of the embedding; the resource factor compares classes and the embedding compares
  texts.

  * `ofLabel?_inj`: a class is one label.
  * `isOther_iff`: a class is none of the known ones exactly if its label is not in the vocabulary.
  * `resourceFactor_eq`: the resource factor by labels.
  * `marked_features`: the slot that the embedding marks (`Marked`) is that of the label; the last
    slot is for what the vocabulary lacks.
  * `labels_mean_one_class`: all of it for any two labels, GIVEN that neither is empty.
-/
namespace Placement

/-! ## Classes -/

namespace ResourceType

/-- Labels of classes whose jobs run on each other's systems. -/
def computeLabels : List String := ["HPC", "AI", "HYBRID"]

/-- Every label but the empty one has a class. -/
theorem exists_ofLabel? {label : String} (h : label ≠ "") : ∃ t, ofLabel? label = some t := by
  unfold ofLabel?
  repeat' split
  all_goals simp_all

section Decoded

variable {a b : String} {ta tb : ResourceType} (ha : ofLabel? a = some ta)
  (hb : ofLabel? b = some tb)
include ha

/-- A label that is kept as it is is none of the known ones. -/
theorem not_known_of_other {label : String} (h : ta = .other label) :
    a ∉ Embedding.knownTypes.toList := by
  subst h
  intro hknown
  simp only [Embedding.knownTypes, Vector.toList_mk, List.mem_cons, List.not_mem_nil, or_false]
    at hknown
  rcases hknown with rfl | rfl | rfl | rfl <;> simp [ofLabel?] at ha

theorem isOther_iff : ta.isOther = true ↔ a ∉ Embedding.knownTypes.toList := by
  have hlabel := label_of_ofLabel? ha
  cases ta with
  | other label => exact iff_of_true rfl (not_known_of_other ha rfl)
  | _ =>
    subst hlabel
    decide

theorem isCompute_iff : ta.isCompute = true ↔ a ∈ computeLabels := by
  have hlabel := label_of_ofLabel? ha
  cases ta with
  | other label =>
    refine iff_of_false Bool.false_ne_true fun hmem => not_known_of_other ha rfl ?_
    exact List.mem_append_left ["STORAGE"] hmem
  | _ =>
    subst hlabel
    decide

theorem eq_storage_iff : ta = .storage ↔ a = "STORAGE" := by
  have hlabel := label_of_ofLabel? ha
  constructor
  · rintro rfl
    exact hlabel.symm
  · rintro rfl
    exact (Option.some.inj ha).symm

include hb

/-- A class has one label. -/
theorem ofLabel?_inj : ta = tb ↔ a = b := by
  constructor
  · rintro rfl
    exact (label_of_ofLabel? ha).symm.trans (label_of_ofLabel? hb)
  · rintro rfl
    exact Option.some.inj (ha.symm.trans hb)

end Decoded

end ResourceType

/-! ## Slots -/

namespace Embedding

open Scalar (ofFloat)

section OneHot

variable {n : ℕ} (known : Vector String n) (label : String)

/-- The slot of a label among known ones: its place, or the last one if it has none. -/
def slot : Fin (n + 1) :=
  ⟨known.toList.idxOf label, by
    have hle : known.toList.idxOf label ≤ known.toList.length := List.idxOf_le_length
    rw [Vector.length_toList] at hle
    omega⟩

variable {known} {label}

theorem slot_eq_last_iff : slot known label = Fin.last n ↔ label ∉ known.toList := by
  rw [← List.idxOf_eq_length_iff, Vector.length_toList]
  exact Fin.ext_iff

variable (hknown : known.toList.Nodup)
include hknown

/-- Of known labels each has a slot of its own. -/
theorem slot_eq_castSucc_iff (i : Fin n) : slot known label = i.castSucc ↔ known[i] = label := by
  have hi : i.val < known.toList.length := by
    rw [Vector.length_toList]
    exact i.isLt
  have hget : known.toList[i.val] = known[i] := Vector.getElem_toList hi
  rw [Fin.ext_iff, ← hget]
  show known.toList.idxOf label = i.val ↔ _
  constructor
  · intro h
    have hlt : known.toList.idxOf label < known.toList.length := h ▸ hi
    have hfound := List.getElem_idxOf hlt
    simp only [h] at hfound
    exact hfound
  · rintro rfl
    exact hknown.idxOf_getElem i.val hi

variable {α : Type} [OfNat α 0]

/-- The weight of a label goes into its slot and nowhere else. -/
theorem getElem_oneHot (weight : α) (i : Fin (n + 1)) :
    (oneHot known label weight)[i] = if i = slot known label then weight else 0 := by
  show (oneHot known label weight)[i.val] = _
  unfold oneHot
  cases i using Fin.lastCases with
  | last =>
    have hlast : Fin.last n = slot known label ↔ label ∉ known.toList :=
      eq_comm.trans slot_eq_last_iff
    simp only [Fin.val_last, Vector.getElem_push_eq, hlast, Vector.mem_toList_iff,
      Vector.contains_iff_mem, ite_not]
  | cast i =>
    have hown : i.castSucc = slot known label ↔ known[i] = label :=
      eq_comm.trans (slot_eq_castSucc_iff hknown i)
    simp only [Fin.val_castSucc, Vector.getElem_push_lt i.isLt, Vector.getElem_map, hown]
    rfl

end OneHot

theorem nodup_knownTypes : knownTypes.toList.Nodup := by decide

theorem nodup_knownSites : knownSites.toList.Nodup := by decide

variable {α : Type} [OfNat α 0] [Mul α] [Scalar α]

/-- In its two blocks of labels a vector has the type weight in the slot of the type, the site
weight in that of the site, and nothing elsewhere. -/
def Marked (v : Features α) (t : EmbeddingTuning) (type site : String) : Prop :=
  (∀ i : Fin 5, v[5 + i.val] = if i = slot knownTypes type then ofFloat t.typeWeight else 0) ∧
  ∀ i : Fin 4, v[10 + i.val] = if i = slot knownSites site then ofFloat t.siteWeight else 0

theorem marked_features (t : EmbeddingTuning) (numeric : Vector α 5) (type : ResourceType)
    (site : String) : Marked (features t numeric type site) t type.label site := by
  refine ⟨fun i => ?_, fun i => ?_⟩
  · rw [← getElem_oneHot nodup_knownTypes]
    unfold features
    dsimp only
    rw [Vector.getElem_append_left (by omega), Vector.getElem_append_right (by omega) (by omega)]
    simp only [Nat.add_sub_cancel_left]
    rfl
  · rw [← getElem_oneHot nodup_knownSites]
    unfold features
    dsimp only
    rw [Vector.getElem_append_right (by omega) (by omega)]
    simp only [Nat.add_sub_cancel_left]
    rfl

end Embedding

/-! ## Levels -/

namespace Heuristic

open ResourceType (ofLabel? computeLabels)

variable {a b : String} {ta tb : ResourceType} (ha : ofLabel? a = some ta)
  (hb : ofLabel? b = some tb) (t : HeuristicTuning)

/-- The resource factor does not see which of two classes is that of the job. -/
theorem resourceFactor_comm : resourceFactor t ta tb = resourceFactor t tb ta := by
  unfold resourceFactor
  simp only [eq_comm (a := ta) (b := tb), Bool.and_comm ta.isCompute, bne_comm]

include ha hb

/-- The resource factor in terms of labels. -/
theorem resourceFactor_eq : resourceFactor t ta tb
    = if a = b then t.exactType
      else if a ∈ computeLabels ∧ b ∈ computeLabels then t.compatibleType
      else if decide (a = "STORAGE") != decide (b = "STORAGE") then t.storageMismatch
      else t.defaultType := by
  unfold resourceFactor
  simp only [ResourceType.ofLabel?_inj ha hb, Bool.and_eq_true, ResourceType.isCompute_iff ha,
    ResourceType.isCompute_iff hb, ResourceType.eq_storage_iff ha, ResourceType.eq_storage_iff hb]

end Heuristic

/-! ## Labels -/

section Labels

open Placement.Embedding (Marked jobFeatures systemFeatures knownTypes slot)
open ResourceType (ofLabel? computeLabels)

variable {α : Type} [OfNat α 0] [OfNat α 1] [Mul α] [Div α] [Scalar α]

/-- A label means the same wherever it is looked at. Every label but the empty one is read as a
class, which is written as that label and as no other; two classes are one exactly when their labels
are. The resource factor is decided by the labels alone and is the same both ways, whatever the
levels. In the features of a job and of a system the type weight stands in the slot of the label and
the site weight in that of the site, and nothing elsewhere; the slot is the place of the label in
the vocabulary, and the last one exactly when the class is not a known one. -/
theorem labels_mean_one_class (curves : Curves α) (a b : String) (ha : a ≠ "") (hb : b ≠ "") :
    ∃ ta tb, ofLabel? a = some ta ∧ ofLabel? b = some tb ∧
      (ta.label = a ∧ Json.parse? ta.toJson.render = some (.text a) ∧
        ResourceType.read (.text a) = .ok ta) ∧
      (ta = tb ↔ a = b) ∧
      (∀ t, Heuristic.resourceFactor t ta tb = Heuristic.resourceFactor t tb ta ∧
        Heuristic.resourceFactor t ta tb
          = if a = b then t.exactType
            else if a ∈ computeLabels ∧ b ∈ computeLabels then t.compatibleType
            else if decide (a = "STORAGE") != decide (b = "STORAGE") then t.storageMismatch
            else t.defaultType) ∧
      (∀ t (job : Job), job.type = ta → Marked (jobFeatures curves t job) t a job.site) ∧
      (∀ t (system : System), system.type = ta →
        Marked (systemFeatures curves t system) t a system.site) ∧
      (∀ i : Fin 4, slot knownTypes a = i.castSucc ↔ knownTypes[i] = a) ∧
      (slot knownTypes a = Fin.last 4 ↔ ta.isOther = true) := by
  obtain ⟨ta, hta⟩ := ResourceType.exists_ofLabel? ha
  obtain ⟨tb, htb⟩ := ResourceType.exists_ofLabel? hb
  have hlabel := ResourceType.label_of_ofLabel? hta
  have hjson : ta.toJson = .text a := congrArg Json.text hlabel
  refine ⟨ta, tb, hta, htb, ⟨hlabel, ?_, ?_⟩, ResourceType.ofLabel?_inj hta htb, fun t => ⟨?_, ?_⟩,
    fun t job hjob => ?_, fun t system hsystem => ?_, ?_, ?_⟩
  · rw [hjson]
    exact Json.parse?_render trivial (Nat.zero_le _)
  · rw [← hjson]
    exact ResourceType.read_toJson (ResourceType.canonical_of_ofLabel? hta)
  · exact Heuristic.resourceFactor_comm t
  · exact Heuristic.resourceFactor_eq hta htb t
  · rw [← hlabel, ← hjob]
    exact Embedding.marked_features t _ _ _
  · rw [← hlabel, ← hsystem]
    exact Embedding.marked_features t _ _ _
  · exact Embedding.slot_eq_castSucc_iff Embedding.nodup_knownTypes
  · exact Embedding.slot_eq_last_iff.trans (ResourceType.isOther_iff hta).symm

/-- Labels that differ in case only are two classes, and the unknown one is not taken for the
other. -/
theorem labels_mean_one_class_cased : ∃ ta tb, ofLabel? "ai" = some ta ∧ ofLabel? "AI" = some tb ∧
    ta ≠ tb ∧ (∀ t, Heuristic.resourceFactor t ta tb = t.defaultType) ∧
    slot knownTypes "ai" = Fin.last 4 ∧ slot knownTypes "AI" = 1 := by
  obtain ⟨ta, tb, ha, hb, -, hinj, hlevels, -, -, -, hslot⟩ :=
    labels_mean_one_class Curves.steep "ai" "AI" (by decide) (by decide)
  refine ⟨ta, tb, ha, hb, mt hinj.mp (by decide), fun t => (hlevels t).2, hslot.mpr ?_, by decide⟩
  cases ha
  rfl

end Labels

end Placement
