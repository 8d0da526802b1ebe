import Mathlib.Data.List.Find
import Placement.Job
import Placement.Proofs.Record.Shape
import Placement.System
/-
  Keys that nobody looks for. `Json.Padded known v v'`: keys that are not `known` are put anywhere
  between the members of `v`, and what stands under a known key is padded in its turn, in the way
  that belongs to the key.

  * `Members.Padded.find?`: under a known key the same is found before and after, up to that
    padding.
  * `Shape.decode_padded`: a record is decoded from a padded value as from the value itself, whether
    it is accepted or refused, given that its columns are known and compared as they are.
  * `Renames.used?_padded`: and so is the table of old names looked up.
-/
namespace Placement

/-! ## Padding -/

namespace Json

/-- The keys that a reader of an object knows, each with the way in which its value is padded. -/
abbrev Known := List (String × (Json → Json → Prop))

/-- Known keys whose values stay as they are. -/
def Known.fixed (keys : List String) : Known := keys.map fun key => (key, Eq)

theorem Known.lookup_fixed {keys : List String} {key : String} (h : key ∈ keys) :
    List.lookup key (fixed keys) = some Eq := by
  induction keys with
  | nil => exact nomatch h
  | cons k rest ih =>
    show List.lookup key ((k, Eq) :: fixed rest) = some Eq
    rw [List.lookup_cons]
    cases hk : key == k with
    | true => rfl
    | false => exact ih ((List.mem_cons.mp h).resolve_left (beq_eq_false_iff_ne.mp hk))

theorem mem_of_lookup {β : Type} {entries : List (String × β)} {key : String} {b : β}
    (h : List.lookup key entries = some b) : (key, b) ∈ entries := by
  obtain ⟨before, after, hsplit, -⟩ := List.lookup_eq_some_iff.mp h
  exact hsplit ▸ List.mem_append_right _ List.mem_cons_self

/-- Members are padded to others: values under known keys in the way of the key, and members under
other keys are put anywhere between them. -/
inductive Members.Padded (known : Known) : Members → Members → Prop
  | nil : Padded known [] []
  | keep {key : String} {v v' : Json} {members members' : Members}
      (hvalue : ∀ R, List.lookup key known = some R → R v v')
      (rest : Padded known members members') :
      Padded known ((key, v) :: members) ((key, v') :: members')
  | add {key : String} {v : Json} {members members' : Members}
      (hkey : List.lookup key known = none) (rest : Padded known members members') :
      Padded known members ((key, v) :: members')

/-- A value is padded to another: not at all, or in the members of an object. -/
inductive Padded (known : Known) : Json → Json → Prop
  | same (v : Json) : Padded known v v
  | object {members members' : Members} (h : members.Padded known members') :
      Padded known (.object members) (.object members')

namespace Members.Padded

variable {known : Known} {members members' : Members}

theorem refl (hknown : ∀ entry ∈ known, ∀ v, entry.2 v v) (members : Members) :
    members.Padded known members := by
  induction members with
  | nil => exact .nil
  | cons member rest ih =>
    exact .keep (fun R hR => hknown _ (mem_of_lookup hR) member.2) ih

/-- To set an unknown key is to pad. -/
theorem set (hknown : ∀ entry ∈ known, ∀ v, entry.2 v v) {key : String}
    (hkey : List.lookup key known = none) (value : Json) (members : Members) :
    members.Padded known (members.set key value) := by
  induction members with
  | nil => exact .add hkey .nil
  | cons member rest ih =>
    obtain ⟨k, v⟩ := member
    unfold Members.set
    split
    · exact .add hkey (refl hknown _)
    split
    · -- the key stands there already; its value is no concern of the reader
      rename_i heq
      subst heq
      exact .keep (fun R hR => absurd (hR.symm.trans hkey) (Option.some_ne_none R)) (refl hknown rest)
    · exact .keep (fun R hR => hknown _ (mem_of_lookup hR) v) ih

/-- Under a known key stands what stood there, padded in the way of the key. -/
theorem find? (h : members.Padded known members') {key : String} {R : Json → Json → Prop}
    (hkey : List.lookup key known = some R) :
    Option.Rel R (members.find? key) (members'.find? key) := by
  induction h with
  | nil => exact .none
  | @keep k v v' members members' hvalue _ ih =>
    rw [find?_cons, find?_cons]
    split
    · rename_i heq
      exact .some (hvalue R (heq ▸ hkey))
    · exact ih
  | @add k v members members' hunknown _ ih =>
    rw [find?_cons, if_neg (by rintro rfl; exact nomatch hunknown.symm.trans hkey)]
    exact ih

theorem find?_eq (h : members.Padded known members') {key : String}
    (hkey : List.lookup key known = some Eq) : members'.find? key = members.find? key := by
  have hrel := h.find? hkey
  generalize members.find? key = part at hrel ⊢
  generalize members'.find? key = part' at hrel ⊢
  cases hrel with
  | none => rfl
  | some heq => rw [heq]

end Members.Padded

end Json

/-! ## Records -/

namespace Shape

variable {α β : Type}

/-- A shape looks for its fields under its columns only. -/
def ReadsColumns (s : Shape α) : Prop :=
  ∀ members members' : Json.Members,
    (∀ key ∈ s.columns.map Prod.fst, members'.find? key = members.find? key) →
    s.ofMembers members' = s.ofMembers members

theorem readsColumns_empty (a : α) : (empty a).ReadsColumns := fun _ _ _ => rfl

theorem ReadsColumns.field {s : Shape (α → β)} (h : s.ReadsColumns) {key : String}
    {read : Json → Except Fault α} {absent omitted : Option α} :
    (s.field key read absent omitted).ReadsColumns := by
  intro members members' hsame
  have hcolumns : (s.field key read absent omitted).columns.map Prod.fst
      = s.columns.map Prod.fst ++ [key] := List.map_append
  rw [hcolumns, List.forall_mem_append, List.forall_mem_singleton] at hsame
  unfold Shape.field
  dsimp only
  rw [h members members' hsame.1, hsame.2]

variable {s : Shape α} {known : Json.Known}

/-- The first ill-typed member is none of those that were added. -/
theorem fault?_padded (hknown : ∀ key ∈ s.columns.map Prod.fst, List.lookup key known = some Eq)
    {members members' : Json.Members} (h : members.Padded known members') :
    s.fault? members' = s.fault? members := by
  unfold fault?
  induction h with
  | nil => rfl
  | @keep k v v' members members' hvalue _ ih =>
    rw [List.findSome?_cons, List.findSome?_cons, ih]
    cases hcolumn : List.lookup k s.columns with
    | none => rfl
    | some check =>
      have hk : k ∈ s.columns.map Prod.fst :=
        List.mem_map_of_mem (f := Prod.fst) (Json.mem_of_lookup hcolumn)
      rw [hvalue Eq (hknown k hk)]
  | @add k v members members' hunknown _ ih =>
    -- the columns are known keys, so an added member has none
    have hcolumn : List.lookup k s.columns = none := by
      rw [List.lookup_eq_none_iff]
      intro column hcolumn
      rw [bne_iff_ne]
      rintro rfl
      exact nomatch hunknown.symm.trans (hknown _ (List.mem_map_of_mem hcolumn))
    rw [List.findSome?_cons, hcolumn]
    exact ih

/-- A record is decoded from a padded value as from the value itself. -/
theorem decode_padded (hs : s.ReadsColumns)
    (hknown : ∀ key ∈ s.columns.map Prod.fst, List.lookup key known = some Eq) (name : String)
    {v v' : Json} (h : v.Padded known v') : s.decode name v' = s.decode name v := by
  cases h with
  | same => rfl
  | object h =>
    unfold decode
    dsimp only
    rw [fault?_padded hknown h, hs _ _ fun key hkey => h.find?_eq (hknown key hkey)]

end Shape

namespace Renames

variable {table : Renames} {known : Json.Known}

/-- A padded value uses the old names that the value itself uses. -/
theorem used?_padded (hknown : ∀ entry ∈ table, List.lookup entry.1 known = some Eq) {v v' : Json}
    (h : v.Padded known v') : table.used? v' = table.used? v := by
  cases h with
  | same => rfl
  | object h =>
    unfold used?
    exact List.find?_congr fun entry hentry => by rw [h.find?_eq (hknown entry hentry)]

end Renames

theorem Job.readsColumns_shape : shape.ReadsColumns := by
  unfold shape Shape.required
  iterate 12 apply Shape.ReadsColumns.field
  exact Shape.readsColumns_empty _

theorem System.readsColumns_shape : shape.ReadsColumns := by
  unfold shape Shape.required Shape.trailing
  iterate 9 apply Shape.ReadsColumns.field
  exact Shape.readsColumns_empty _

theorem Status.readsColumns_shape : shape.ReadsColumns := by
  unfold shape Shape.required
  iterate 3 apply Shape.ReadsColumns.field
  exact Shape.readsColumns_empty _

end Placement
