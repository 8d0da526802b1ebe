import Placement.Proofs.Double.Fields
import Placement.Proofs.Json.Grammar
/-
  Printed values read back. `settled` is what the reader makes of the text of a value: doubles that
  are not finite become null, and the members of an object are gathered in the order of their keys.

  `parse?_render_append`: given a value that is `Legible` and containers at most `depthLimit` deep,
  its text is read back as the settled value, with any blanks behind it. The reader computes a
  double in two rounded steps, so that not every finite double is read back from its shortest text;
  a value is legible when those in it are (`ReadsBack`).
-/
namespace Placement.Json

/-! ## Settled and legible values -/

/-- A double is read back: the reader takes its whole text and makes the same double of it. -/
def ReadsBack (x : Float) : Prop :=
  scalar? (doubles.write x).toList = some (.number (.double x), [])

/-- What a number is read back as. -/
def Number.settled : Number → Json
  | .double x => if x.isFinite then .number (.double x) else .null
  | n => .number n

/-- Finite doubles are read back, and what is written with a minus is negative. -/
def Number.Legible : Number → Prop
  | .natural _ => True
  | .negative i => i < 0
  | .double x => x.isFinite = true → ReadsBack x

mutual

/-- What a value is read back as. -/
def settled : Json → Json
  | .null => .null
  | .bool b => .bool b
  | .number n => n.settled
  | .text s => .text s
  | .array items => .array (settledItems items)
  | .object members => .object (Members.gather (settledMembers members))

/-- What the items of an array are read back as. -/
def settledItems : List Json → List Json
  | [] => []
  | v :: rest => settled v :: settledItems rest

/-- What the members of an object are read back as, in the order they are written in. -/
def settledMembers : List (String × Json) → List (String × Json)
  | [] => []
  | (k, v) :: rest => (k, settled v) :: settledMembers rest

end

mutual

/-- All numbers of a value are legible. -/
def Legible : Json → Prop
  | .number n => n.Legible
  | .array items => LegibleItems items
  | .object members => LegibleMembers members
  | _ => True

/-- All items are legible. -/
def LegibleItems : List Json → Prop
  | [] => True
  | v :: rest => Legible v ∧ LegibleItems rest

/-- All members are legible. -/
def LegibleMembers : List (String × Json) → Prop
  | [] => True
  | (_, v) :: rest => Legible v ∧ LegibleMembers rest

end

mutual

/-- How deep the containers of a value nest. -/
def depth : Json → Nat
  | .array items => depthItems items + 1
  | .object members => depthMembers members + 1
  | _ => 0

/-- How deep the deepest item nests. -/
def depthItems : List Json → Nat
  | [] => 0
  | v :: rest => max (depth v) (depthItems rest)

/-- How deep the deepest member nests. -/
def depthMembers : List (String × Json) → Nat
  | [] => 0
  | (_, v) :: rest => max (depth v) (depthMembers rest)

end

/-! ## Printed values -/

/-- A number is read as what it settles into. -/
theorem scalar?_render {n : Number} (hn : n.Legible) :
    scalar? n.render.toList = some (n.settled, []) := by
  cases n with
  | natural n =>
    show scalar? (String.ofList (Nat.toDigits 10 n.toNat)).toList = _
    have hread := unsigned?_toDigits endsNumber_nil false n.toNat
    rw [ofLiteral?_natural, List.append_nil] at hread
    rw [String.toList_ofList]
    cases hd : Nat.toDigits 10 n.toNat with
    | nil => exact absurd hd Nat.toDigits_ne_nil
    | cons c rest =>
      rw [hd] at hread
      rw [scalar?_digit (Decimal.isDigit_toDigits (hd ▸ List.mem_cons_self))]
      exact hread
  | negative i =>
    have hread := unsigned?_toDigits endsNumber_nil true i.toInt.natAbs
    rw [ofLiteral?_negative hn, List.append_nil] at hread
    have htext : (Number.negative i).render.toList = '-' :: Nat.toDigits 10 i.toInt.natAbs := by
      unfold Number.render Decimal.digitText
      dsimp only
      rw [if_pos (show i < 0 from hn)]
      simp
    rw [htext]
    exact hread
  | double x =>
    show scalar? (doubles.write x).toList = some (Number.settled (.double x), [])
    unfold Number.settled
    dsimp only
    cases hx : x.isFinite with
    | true => exact hn hx
    | false =>
      have hnull : doubles.write x = "null" := by
        rcases Double.write_of_not_isFinite hx doubles with h | h | h <;> exact h
      rw [hnull]
      rfl

theorem spellsScalar_renderText (s : String) : SpellsScalar (renderText s).toList (.text s) := by
  have htext : SpellsScalar ('"' :: (s.toList.flatMap escaped ++ ['"']))
      (.text (String.ofList s.toList)) := .text (isContent_flatMap s.toList)
  have hrender := renderText_append s []
  rw [List.append_nil] at hrender
  rw [String.ofList_toList] at htext
  rw [hrender]
  exact htext

mutual

/-- A legible value is printed as a spelling of what it settles into. -/
theorem spells_render (v : Json) (hv : v.Legible) (n : Nat) (hn : v.depth ≤ n) :
    Spells n v.render.toList v.settled := by
  match v, n with
  | .null, n => exact .of_scalar .null
  | .bool true, n => exact .of_scalar .true
  | .bool false, n => exact .of_scalar .false
  | .number m, n => exact .of_scalar (spellsScalar_of_read (scalar?_render hv))
  | .text s, n => exact .of_scalar (spellsScalar_renderText s)
  | .array [], n + 1 => exact .inr (@SpellsContainer.emptyArray _ [] rfl)
  | .array (first :: rest), n + 1 =>
    have hitems := spells_renderItems (first :: rest) (List.cons_ne_nil _ _) hv n
      (Nat.le_of_succ_le_succ hn)
    have htext : (render (.array (first :: rest))).toList
        = '[' :: ((renderItems (first :: rest)).toList ++ [']']) := by
      simp [render]
    rw [htext]
    exact .inr (.array hitems)
  | .object [], n + 1 => exact .inr (@SpellsContainer.emptyObject _ [] rfl)
  | .object (member :: rest), n + 1 =>
    have hmembers := spells_renderMembers (member :: rest) (List.cons_ne_nil _ _) hv n
      (Nat.le_of_succ_le_succ hn)
    have htext : (render (.object (member :: rest))).toList
        = '{' :: ((renderMembers (member :: rest)).toList ++ ['}']) := by
      simp [render]
    rw [htext]
    exact .inr (.object hmembers)

/-- So is a row of legible items. -/
theorem spells_renderItems (items : List Json) (hne : items ≠ []) (hv : LegibleItems items)
    (n : Nat) (hn : depthItems items ≤ n) :
    SpellsRow (SpellsItem (Spells n)) (renderItems items).toList (settledItems items) := by
  match items with
  | [v] =>
    exact .last (.of_spells (spells_render v hv.1 n (Nat.le_trans (Nat.le_max_left _ _) hn)))
  | v :: w :: rest =>
    have hfirst := spells_render v hv.1 n (Nat.le_trans (Nat.le_max_left _ _) hn)
    have hmore := spells_renderItems (w :: rest) (List.cons_ne_nil _ _) hv.2 n
      (Nat.le_trans (Nat.le_max_right _ _) hn)
    have htext : (renderItems (v :: w :: rest)).toList
        = v.render.toList ++ ',' :: (renderItems (w :: rest)).toList := by
      simp [renderItems]
    rw [htext]
    exact .more (.of_spells hfirst) hmore

/-- So is a row of legible members. -/
theorem spells_renderMembers (members : List (String × Json)) (hne : members ≠ [])
    (hv : LegibleMembers members) (n : Nat) (hn : depthMembers members ≤ n) :
    SpellsRow (SpellsMember (Spells n)) (renderMembers members).toList
      (settledMembers members) := by
  match members with
  | [(k, v)] =>
    have hlast := spells_render v hv.1 n (Nat.le_trans (Nat.le_max_left _ _) hn)
    have htext : (renderMembers [(k, v)]).toList
        = (renderText k).toList ++ ':' :: v.render.toList := by
      simp [renderMembers]
    rw [htext]
    exact .last (.of_item k (.of_spells hlast))
  | (k, v) :: member :: rest =>
    have hfirst := spells_render v hv.1 n (Nat.le_trans (Nat.le_max_left _ _) hn)
    have hmore := spells_renderMembers (member :: rest) (List.cons_ne_nil _ _) hv.2 n
      (Nat.le_trans (Nat.le_max_right _ _) hn)
    have htext : (renderMembers ((k, v) :: member :: rest)).toList
        = ((renderText k).toList ++ ':' :: v.render.toList)
          ++ ',' :: (renderMembers (member :: rest)).toList := by
      simp [renderMembers]
    rw [htext]
    exact .more (.of_item k (.of_spells hfirst)) hmore

end

/-- A text that is spelled, with blanks behind it, is read. -/
theorem parse?_append_blanks {text blanks : String} {v : Json}
    (h : Spells depthLimit text.toList v) (hb : blanks.toList.all isSpace = true) :
    parse? (text ++ blanks) = some v := by
  have hitem : SpellsItem (Spells depthLimit) ([] ++ (text.toList ++ blanks.toList)) v :=
    .mk rfl h hb
  rw [parse?_eq_some_iff, String.toList_append]
  exact hitem

/-- A printed value, with blanks behind it, is read back as what it settles into. -/
theorem parse?_render_append {v : Json} (hv : v.Legible) (hd : v.depth ≤ depthLimit)
    {blanks : String} (hb : blanks.toList.all isSpace = true) :
    parse? (v.render ++ blanks) = some v.settled :=
  parse?_append_blanks (spells_render v hv depthLimit hd) hb

/-- A printed value is read back as what it settles into. -/
theorem parse?_render {v : Json} (hv : v.Legible) (hd : v.depth ≤ depthLimit) :
    parse? v.render = some v.settled := by
  have h : parse? (v.render ++ "") = some v.settled := parse?_render_append hv hd rfl
  rwa [String.append_empty] at h

/-! ## Members of a settled object -/

@[simp] theorem map_fst_settledMembers (members : List (String × Json)) :
    (settledMembers members).map Prod.fst = members.map Prod.fst := by
  induction members with
  | nil => rfl
  | cons member rest ih =>
    obtain ⟨k, v⟩ := member
    rw [settledMembers, List.map_cons, List.map_cons, ih]

theorem find?_settledMembers (members : List (String × Json)) (key : String) :
    Members.find? (settledMembers members) key = (Members.find? members key).map settled := by
  induction members with
  | nil => rfl
  | cons member rest ih =>
    obtain ⟨k, v⟩ := member
    rw [settledMembers, Members.find?_cons, Members.find?_cons, ih]
    split <;> rfl

/-- With distinct keys, every value is found settled. -/
theorem find?_settled {members : List (String × Json)} (hn : (members.map Prod.fst).Nodup)
    (key : String) :
    Members.find? (Members.gather (settledMembers members)) key
      = (Members.find? members key).map settled := by
  rw [Members.find?_gather_of_nodup (by rwa [map_fst_settledMembers]), find?_settledMembers]

/-- A finite double settles into itself. -/
theorem settled_double {x : Float} (h : x.isFinite = true) :
    settled (.number (.double x)) = .number (.double x) := by
  unfold settled Number.settled
  dsimp only
  rw [if_pos h]

end Placement.Json
