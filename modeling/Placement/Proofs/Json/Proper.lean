import Placement.Proofs.Double.Level
import Placement.Proofs.Json.Members
/-
  `Proper v`: the numbers in `v` are finite and no object in it holds a key twice, as in the values
  that a reader of JSON texts hands on. What such a value holds under a key is proper again
  (`Proper.get?`), and its numbers are finite doubles (`Number.Proper.isFinite_toFloat`).
-/
namespace Placement.Json

/-- A number is finite. -/
def Number.Proper : Number → Prop
  | .double x => x.isFinite = true
  | _ => True

theorem isFinite_nearestDouble (i : Int64) : (nearestDouble i).isFinite = true := by
  unfold nearestDouble
  split
  · rw [Double.isFinite_neg, Double.isFinite_count]
  · exact Double.isFinite_count _

/-- The double nearest to a finite number is finite. -/
theorem Number.Proper.isFinite_toFloat {n : Number} (h : n.Proper) : n.toFloat.isFinite = true := by
  cases n with
  | natural n => exact Double.isFinite_count n
  | negative i => exact isFinite_nearestDouble i
  | double x => exact h

mutual

/-- All numbers of a value are finite, and the keys of each object are distinct. -/
def Proper : Json → Prop
  | .number n => n.Proper
  | .array items => ProperItems items
  | .object members => (members.map Prod.fst).Nodup ∧ ProperMembers members
  | _ => True

/-- All items are proper. -/
def ProperItems : List Json → Prop
  | [] => True
  | v :: rest => Proper v ∧ ProperItems rest

/-- All values of members are proper. -/
def ProperMembers : List (String × Json) → Prop
  | [] => True
  | (_, v) :: rest => Proper v ∧ ProperMembers rest

end

theorem ProperMembers.find? {members : Members} (h : ProperMembers members) {key : String} {v : Json}
    (hv : members.find? key = some v) : v.Proper := by
  induction members with
  | nil => exact nomatch hv
  | cons member rest ih =>
    obtain ⟨k, w⟩ := member
    obtain ⟨hw, hrest⟩ := h
    rw [Members.find?_cons] at hv
    split at hv
    · cases hv
      exact hw
    · exact ih hrest hv

/-- What is found in a proper value is proper. -/
theorem Proper.get? {v w : Json} (h : v.Proper) {key : String} (hw : v.get? key = some w) :
    w.Proper := by
  cases v with
  | object members => exact h.2.find? hw
  | null | bool | number | text | array => exact nomatch hw

end Placement.Json
