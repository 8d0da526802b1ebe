import Placement.Proofs.Except
import Placement.Proofs.Json.Members
import Placement.Record.Check
/-
  Reading records column by column. `decode_object` and `decode_array`: a record is decoded exactly
  if each member passes the check of its column and each field finds its value, given a shape whose
  columns are distinct (`Consistent`). `Ensures.decode`: what is known of every value that a field
  can be read as is known of the field of every record that is read.
-/
namespace Placement

namespace Shape

variable {α β : Type}

/-! ## Reading an object -/

/-- Where a record is read, what is found under its columns passes their checks. -/
def Consistent (s : Shape α) : Prop :=
  ∀ members a, s.ofMembers members = .ok a →
    ∀ key v check, members.find? key = some v → List.lookup key s.columns = some check →
      check v = none

theorem consistent_empty (a : α) : (empty a).Consistent := by
  intro members b _ key v check _ hcheck
  exact nomatch hcheck

/-- A field of an object is read under its key, or has the value that stands for its absence. -/
theorem ofMembers_field_eq_ok {s : Shape (α → β)} {key : String} {read : Json → Except Fault α}
    {absent omitted : Option α} {members : Json.Members} {b : β} :
    (s.field key read absent omitted).ofMembers members = .ok b ↔
      ∃ f a, s.ofMembers members = .ok f ∧ b = f a ∧
        match members.find? key with
        | some v => read v = .ok a
        | none => absent = some a := by
  constructor
  · intro hb
    obtain ⟨f, hf, hb⟩ := bind_eq_ok.mp hb
    cases hv : members.find? key with
    | some v =>
      rw [hv] at hb
      obtain ⟨a, ha, hb⟩ := bind_eq_ok.mp hb
      cases hb
      exact ⟨f, a, hf, rfl, ha⟩
    | none =>
      rw [hv] at hb
      cases absent with
      | some a =>
        cases hb
        exact ⟨f, a, hf, rfl, rfl⟩
      | none => exact nomatch hb
  · rintro ⟨f, a, hf, rfl, ha⟩
    refine bind_eq_ok.mpr ⟨f, hf, ?_⟩
    cases hv : members.find? key with
    | some v =>
      rw [hv] at ha
      exact bind_eq_ok.mpr ⟨a, ha, rfl⟩
    | none =>
      rw [hv] at ha
      cases ha
      rfl

/-- A field of an array is read from its next item, or has the value that stands for its end. -/
theorem ofItems_field_eq_ok {s : Shape (α → β)} {key : String} {read : Json → Except Fault α}
    {absent omitted : Option α} {name : String} {size : Nat} {items rest : List Json} {b : β} :
    (s.field key read absent omitted).ofItems name size items = .ok (b, rest) ↔
      ∃ f more a, s.ofItems name size items = .ok (f, more) ∧ b = f a ∧
        ((∃ v, more = v :: rest ∧ read v = .ok a) ∨ more = [] ∧ rest = [] ∧ omitted = some a) := by
  constructor
  · intro hb
    obtain ⟨⟨f, more⟩, hf, hb⟩ := bind_eq_ok.mp hb
    cases more with
    | cons v more =>
      obtain ⟨a, ha, hb⟩ := bind_eq_ok.mp hb
      cases hb
      exact ⟨f, _, a, hf, rfl, .inl ⟨v, rfl, ha⟩⟩
    | nil =>
      cases omitted with
      | some a =>
        cases hb
        exact ⟨f, [], a, hf, rfl, .inr ⟨rfl, rfl, rfl⟩⟩
      | none => exact nomatch hb
  · rintro ⟨f, _, a, hf, rfl, ⟨v, rfl, ha⟩ | ⟨rfl, rfl, rfl⟩⟩
    · exact bind_eq_ok.mpr ⟨(f, v :: rest), hf, bind_eq_ok.mpr ⟨a, ha, rfl⟩⟩
    · exact bind_eq_ok.mpr ⟨(f, []), hf, rfl⟩

theorem Consistent.field {s : Shape (α → β)} {key : String} {read : Json → Except Fault α}
    {absent omitted : Option α} (h : s.Consistent) :
    (s.field key read absent omitted).Consistent := by
  intro members b hb k v check hv hcheck
  obtain ⟨f, a, hf, -, ha⟩ := ofMembers_field_eq_ok.mp hb
  have hcolumns : List.lookup k (s.columns ++ [(key, faultOf read)]) = some check := hcheck
  rw [List.lookup_append, Option.or_eq_some_iff] at hcolumns
  rcases hcolumns with hold | ⟨-, hnew⟩
  · exact h members f hf k v check hv hold
  · rw [List.lookup_cons] at hnew
    cases hk : k == key with
    | false =>
      rw [hk] at hnew
      exact nomatch hnew
    | true =>
      rw [hk] at hnew
      cases hnew
      rw [beq_iff_eq.mp hk] at hv
      rw [hv] at ha
      unfold faultOf
      rw [ha]

/-- An object with distinct keys is decoded as its fields are read. -/
theorem decode_object {s : Shape α} {members : Json.Members} {a : α} (name : String)
    (hs : s.Consistent) (hn : (members.map Prod.fst).Nodup) :
    s.decode name (.object members) = .ok a ↔ s.ofMembers members = .ok a := by
  unfold decode
  dsimp only
  cases hfault : s.fault? members with
  | none => rfl
  | some fault =>
    refine iff_of_false nofun fun hread => ?_
    obtain ⟨member, hm, hcheck⟩ := List.exists_of_findSome?_eq_some hfault
    obtain ⟨check, hcolumn, hcheck⟩ := Option.bind_eq_some_iff.mp hcheck
    have hnone := hs members a hread member.1 member.2 check
      (Json.Members.find?_eq_some_of_mem hn hm) hcolumn
    exact nomatch hnone.symm.trans hcheck

/-- An array is decoded where its fields take all of its items. -/
theorem decode_array {s : Shape α} {items : List Json} {a : α} (name : String) :
    s.decode name (.array items) = .ok a ↔ s.ofItems name s.columns.length items = .ok (a, []) := by
  show (s.ofItems name s.columns.length items >>= fun r => _) = .ok a ↔ _
  rw [bind_eq_ok]
  constructor
  · rintro ⟨⟨b, rest⟩, hread, hb⟩
    cases rest with
    | nil =>
      cases hb
      exact hread
    | cons v rest => exact nomatch hb
  · intro hread
    exact ⟨(a, []), hread, rfl⟩

/-! ## What every record has that is read -/

/-- Every record that a shape reads has a property, from an object and from an array. -/
structure Ensures (s : Shape α) (P : α → Prop) : Prop where
  ofMembers : ∀ members a, s.ofMembers members = .ok a → P a
  ofItems : ∀ name size items a rest, s.ofItems name size items = .ok (a, rest) → P a

theorem ensures_empty {a : α} {P : α → Prop} (h : P a) : (empty a).Ensures P where
  ofMembers _ _ he := by
    cases he
    exact h
  ofItems _ _ _ _ _ he := by
    cases he
    exact h

/-- One more field: its value is read from somewhere, or stands for one that is not there. -/
theorem Ensures.field {s : Shape (α → β)} {key : String} {read : Json → Except Fault α}
    {absent omitted : Option α} {P : β → Prop}
    (h : s.Ensures fun f => ∀ a,
      (∃ v, read v = .ok a) ∨ absent = some a ∨ omitted = some a → P (f a)) :
    (s.field key read absent omitted).Ensures P where
  ofMembers members b hb := by
    obtain ⟨f, a, hf, rfl, ha⟩ := ofMembers_field_eq_ok.mp hb
    refine h.ofMembers members f hf a ?_
    cases hv : members.find? key with
    | some v =>
      rw [hv] at ha
      exact .inl ⟨v, ha⟩
    | none =>
      rw [hv] at ha
      exact .inr (.inl ha)
  ofItems name size items b rest hb := by
    obtain ⟨f, more, a, hf, rfl, ha⟩ := ofItems_field_eq_ok.mp hb
    refine h.ofItems name size items f more hf a ?_
    rcases ha with ⟨v, -, hr⟩ | ⟨-, -, ha⟩
    · exact .inl ⟨v, hr⟩
    · exact .inr (.inr ha)

/-- A record that is decoded has what its shape ensures. -/
theorem Ensures.decode {s : Shape α} {P : α → Prop} (h : s.Ensures P) {name : String} {v : Json}
    {a : α} (hd : s.decode name v = .ok a) : P a := by
  cases v with
  | object members =>
    unfold Shape.decode at hd
    dsimp only at hd
    split at hd
    · exact nomatch hd
    · exact h.ofMembers _ _ hd
  | array items => exact h.ofItems _ _ _ _ _ ((decode_array name).mp hd)
  | null | bool | number | text => exact nomatch hd

end Shape

namespace Renames

/-- An object without an old name is decoded as it is. -/
theorem guarded_gather {α : Type} {table : Renames} {decode : Json → Except Fault α}
    {entries : List (String × Json)} (hn : (entries.map Prod.fst).Nodup)
    (h : ∀ entry ∈ table, entry.1 ∉ entries.map Prod.fst) :
    table.guarded decode (.object (Json.Members.gather entries))
      = decode (.object (Json.Members.gather entries)) := by
  have hnone : table.used? (.object (Json.Members.gather entries)) = none := by
    unfold used?
    rw [List.find?_eq_none]
    intro entry hentry
    rw [Json.Members.find?_gather_of_nodup hn, Json.Members.find?_eq_none_iff.mpr (h entry hentry)]
    exact Bool.false_ne_true
  unfold guarded
  rw [hnone]

/-- What is decoded under a table of old names is decoded without it. -/
theorem decode_of_guarded {α : Type} {table : Renames} {decode : Json → Except Fault α}
    {v : Json} {a : α} (h : table.guarded decode v = .ok a) : decode v = .ok a := by
  unfold guarded at h
  split at h
  · exact nomatch h
  · exact h

end Renames

end Placement
