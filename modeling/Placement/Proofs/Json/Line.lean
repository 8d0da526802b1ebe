import Placement.Proofs.Json.Printed
/-
  Printed values on a line. `lineBreak_not_mem_render`: a compact text has no line break in it,
  since one inside a string is escaped. `parse?_object`: an object of texts, nulls and doubles is
  read back as an object with the same keys, given doubles within half of `Decimal.ceiling`
  (`isReadAs_double`); a text as itself, and a double as some double, for the reader rounds twice.
-/
namespace Placement.Json

/-! ## No line breaks -/

theorem lineBreak_not_mem_escaped (c : Char) : '\n' ∉ escaped c := by
  have hhex : ∀ n < 16, '\n' ≠ n.digitChar := by decide
  unfold escaped
  split_ifs with h1 h2 h3 h4 h5 h6 h7 h8
  all_goals try decide
  · intro h
    simp only [List.mem_cons, List.not_mem_nil, or_false] at h
    have hhigh := hhex (c.toNat / 16 % 16) (Nat.mod_lt _ (by decide))
    have hlow := hhex (c.toNat % 16) (Nat.mod_lt _ (by decide))
    rcases h with h | h | h | h | h | h
    all_goals first | exact absurd h (by decide) | exact absurd h ‹_›
  · intro h
    exact h5 (List.mem_singleton.mp h).symm

theorem lineBreak_not_mem_renderText (s : String) : '\n' ∉ (renderText s).toList := by
  unfold renderText
  rw [String.toList_ofList]
  intro h
  rcases List.mem_append.mp h with h | h
  · rcases List.mem_append.mp h with h | h
    · exact absurd h (by decide)
    · obtain ⟨c, -, hc⟩ := List.mem_flatMap.mp h
      exact lineBreak_not_mem_escaped c hc
  · exact absurd h (by decide)

theorem lineBreak_not_mem_digitText (n : ℕ) : '\n' ∉ (Decimal.digitText n).toList := by
  unfold Decimal.digitText
  rw [String.toList_ofList]
  exact fun h => absurd (Decimal.isDigit_toDigits h) (by decide)

theorem Number.lineBreak_not_mem_render (n : Number) : '\n' ∉ n.render.toList := by
  cases n with
  | natural n => exact lineBreak_not_mem_digitText _
  | negative i =>
    unfold render
    dsimp only
    split_ifs
    · rw [String.toList_append]
      exact List.not_mem_append (by decide) (lineBreak_not_mem_digitText _)
    · exact lineBreak_not_mem_digitText _
  | double x =>
    show '\n' ∉ (doubles.write x).toList
    cases hx : x.isFinite with
    | true =>
      obtain ⟨n, hn, -⟩ := exists_numeral hx
      rw [hn]
      exact fun h => (n.mem_chars h).elim (by decide) (by decide)
    | false =>
      rcases Double.write_of_not_isFinite hx doubles with h | h | h <;> rw [h] <;> decide

mutual

/-- The compact text of a value has no line break in it. -/
theorem lineBreak_not_mem_render (v : Json) : '\n' ∉ v.render.toList := by
  match v with
  | .null => decide
  | .bool true => decide
  | .bool false => decide
  | .number n => exact n.lineBreak_not_mem_render
  | .text s => exact lineBreak_not_mem_renderText s
  | .array items =>
    have hitems := lineBreak_not_mem_renderItems items
    simp [render, hitems]
  | .object members =>
    have hmembers := lineBreak_not_mem_renderMembers members
    simp [render, hmembers]

theorem lineBreak_not_mem_renderItems (items : List Json) : '\n' ∉ (renderItems items).toList := by
  match items with
  | [] => decide
  | [v] => exact lineBreak_not_mem_render v
  | v :: w :: rest =>
    have hv := lineBreak_not_mem_render v
    have hrest := lineBreak_not_mem_renderItems (w :: rest)
    simp [renderItems, hv, hrest]

theorem lineBreak_not_mem_renderMembers (members : List (String × Json)) :
    '\n' ∉ (renderMembers members).toList := by
  match members with
  | [] => decide
  | [(k, v)] =>
    have hk := lineBreak_not_mem_renderText k
    have hv := lineBreak_not_mem_render v
    simp [renderMembers, hk, hv]
  | (k, v) :: member :: rest =>
    have hk := lineBreak_not_mem_renderText k
    have hv := lineBreak_not_mem_render v
    have hrest := lineBreak_not_mem_renderMembers (member :: rest)
    simp [renderMembers, hk, hv, hrest]

end

/-! ## Flat objects -/

/-- A printed value is read as `w`, whatever follows it. -/
def IsReadAs (v w : Json) : Prop :=
  ∀ tail, EndsNumber tail → scalar? (v.render.toList ++ tail) = some (w, tail)

theorem isReadAs_null : IsReadAs .null .null := fun _ _ => rfl

theorem isReadAs_text (s : String) : IsReadAs (.text s) (.text s) := by
  intro tail _
  show scalar? ((renderText s).toList ++ tail) = _
  rw [renderText_append]
  show (stringBody? (s.toList.flatMap escaped ++ '"' :: tail)).map _ = _
  rw [stringBody?_flatMap, Option.map_some, String.ofList_toList]

/-- A double that is not finite is printed as null. -/
theorem isReadAs_double_of_not_isFinite {x : Float} (hx : x.isFinite = false) :
    IsReadAs (.number (.double x)) .null := by
  intro tail _
  have hnull : doubles.write x = "null" := by
    rcases Double.write_of_not_isFinite hx doubles with h | h | h <;> exact h
  show scalar? ((doubles.write x).toList ++ tail) = _
  rw [hnull]
  rfl

/-- A double far below the greatest one is read as a double. -/
theorem isReadAs_double {x : Float} (hx : x.isFinite = true)
    (h : 2 * |Double.value x| ≤ Decimal.ceiling) :
    ∃ y, IsReadAs (.number (.double x)) (.number (.double y)) := by
  obtain ⟨n, hn, hread⟩ := exists_numeral hx
  obtain ⟨y, hy⟩ := hread h
  refine ⟨y, fun tail htail => ?_⟩
  show scalar? ((doubles.write x).toList ++ tail) = _
  rw [hn]
  exact n.scalar?_chars hy htail

/-- Members with the same keys, whose printed values are read as those of `entries`. -/
def AreReadAs (members entries : List (String × Json)) : Prop :=
  List.Forall₂ (fun m e => m.1 = e.1 ∧ IsReadAs m.2 e.2) members entries

/-- The members of such an object are printed as a row that spells those of `entries`. -/
theorem spells_of_areReadAs {members entries : List (String × Json)}
    (h : AreReadAs members entries) (hne : members ≠ []) (n : ℕ) :
    SpellsRow (SpellsMember (Spells n)) (renderMembers members).toList entries := by
  induction h with
  | nil => exact absurd rfl hne
  | @cons first entry rest entries hfirst hrest ih =>
    obtain ⟨k, v⟩ := first
    obtain ⟨k', w⟩ := entry
    obtain ⟨rfl, hread⟩ : k = k' ∧ IsReadAs v w := hfirst
    have hv : scalar? v.render.toList = some (w, []) := by
      have hwhole := hread [] endsNumber_nil
      rwa [List.append_nil] at hwhole
    have hmember : SpellsMember (Spells n) ((renderText k).toList ++ ':' :: v.render.toList)
        (k, w) := .of_item k (.of_spells (.of_scalar (spellsScalar_of_read hv)))
    cases hrest with
    | nil =>
      have htext : (renderMembers [(k, v)]).toList
          = (renderText k).toList ++ ':' :: v.render.toList := by
        simp [renderMembers]
      rw [htext]
      exact .last hmember
    | @cons second _ more _ hsecond hmore =>
      have htext : (renderMembers ((k, v) :: second :: more)).toList
          = ((renderText k).toList ++ ':' :: v.render.toList)
            ++ ',' :: (renderMembers (second :: more)).toList := by
        simp [renderMembers]
      rw [htext]
      exact .more hmember (ih (List.cons_ne_nil _ _))

/-- A printed object of scalars, with blanks behind it, is read as an object. -/
theorem parse?_object {members entries : List (String × Json)} (h : AreReadAs members entries)
    (hne : members ≠ []) {blanks : String} (hblanks : blanks.toList.all isSpace = true) :
    parse? ((Json.object members).render ++ blanks) = some (.object (Members.gather entries)) := by
  refine parse?_append_blanks ?_ hblanks
  have hrow := spells_of_areReadAs h hne 126
  cases members with
  | nil => exact absurd rfl hne
  | cons member rest =>
    have htext : (Json.object (member :: rest)).render.toList
        = '{' :: ((renderMembers (member :: rest)).toList ++ ['}']) := by
      simp [render]
    rw [htext]
    exact .inr (.object hrow)

end Placement.Json
