import Placement.Proofs.Json.Content
import Placement.Proofs.Json.Members
import Placement.Proofs.Json.Numeral
/-
  Values as JSON spells them, and the reader against this grammar. A scalar is a word, a numeral or
  a string in quotes (`SpellsScalar`); a container is a row of entries between brackets, with commas
  between them and blanks wherever they may stand (`SpellsContainer`). `Spells depth` is the grammar
  of values whose containers nest at most so deep.

  * `readsValue_value?`: the reader of values reads exactly this grammar (`ReadsValue`), by
    induction on the depth, which is the recursion of the reader.
  * `IsRow.sound`, `IsRow.complete`: the step from the entries of a container to the container, for
    arrays and objects together; both scanners of entries are rows that differ in what an entry is
    and in what closes them.
  * `parse?_eq_some_iff`: a text is read exactly if it is spelled, with blanks around it.
-/
namespace Placement.Json

/-! ## The grammar -/

/-- A value that is no container. -/
inductive SpellsScalar : List Char → Json → Prop
  | null : SpellsScalar "null".toList .null
  | true : SpellsScalar "true".toList (.bool true)
  | false : SpellsScalar "false".toList (.bool false)
  | number {n : Numeral} {m : Number} : n.number? = some m → SpellsScalar n.chars (.number m)
  | text {content s : List Char} : IsContent content s →
      SpellsScalar ('"' :: (content ++ ['"'])) (.text (String.ofList s))

/-- Blanks, perhaps none. -/
def Blanks (cs : List Char) : Prop := cs.all isSpace = true

/-- Entries with commas between them, one at least. -/
inductive SpellsRow {α : Type} (spells : List Char → α → Prop) : List Char → List α → Prop
  | last {text : List Char} {a : α} : spells text a → SpellsRow spells text [a]
  | more {text rest : List Char} {a : α} {others : List α} : spells text a →
      SpellsRow spells rest others → SpellsRow spells (text ++ ',' :: rest) (a :: others)

/-- A value with blanks around it. -/
inductive SpellsItem (spells : List Char → Json → Prop) : List Char → Json → Prop
  | mk {before text after : List Char} {v : Json} : Blanks before → spells text v → Blanks after →
      SpellsItem spells (before ++ (text ++ after)) v

/-- A key in quotes and its value, with a colon between them and blanks around each. -/
inductive SpellsMember (spells : List Char → Json → Prop) : List Char → String × Json → Prop
  | mk {before content key between text : List Char} {v : Json} : Blanks before →
      IsContent content key → Blanks between → SpellsItem spells text v →
      SpellsMember spells (before ++ '"' :: (content ++ '"' :: (between ++ ':' :: text)))
        (String.ofList key, v)

/-- An array or an object whose entries are spelled so. -/
inductive SpellsContainer (spells : List Char → Json → Prop) : List Char → Json → Prop
  | emptyArray {blanks : List Char} : Blanks blanks →
      SpellsContainer spells ('[' :: (blanks ++ [']'])) (.array [])
  | array {text : List Char} {items : List Json} : SpellsRow (SpellsItem spells) text items →
      SpellsContainer spells ('[' :: (text ++ [']'])) (.array items)
  | emptyObject {blanks : List Char} : Blanks blanks →
      SpellsContainer spells ('{' :: (blanks ++ ['}'])) (.object [])
  | object {text : List Char} {members : List (String × Json)} :
      SpellsRow (SpellsMember spells) text members →
      SpellsContainer spells ('{' :: (text ++ ['}'])) (.object (Members.gather members))

/-- A value with containers at most so deep. -/
def Spells : Nat → List Char → Json → Prop
  | 0 => SpellsScalar
  | depth + 1 => fun text v => SpellsScalar text v ∨ SpellsContainer (Spells depth) text v

theorem Spells.of_scalar {depth : Nat} {text : List Char} {v : Json} (h : SpellsScalar text v) :
    Spells depth text v := by
  cases depth with
  | zero => exact h
  | succ depth => exact .inl h

section

variable {spells : List Char → Json → Prop} {text : List Char} {v : Json}

/-- There may be no blanks. -/
theorem SpellsItem.of_spells (h : spells text v) : SpellsItem spells text v := by
  have hitem : SpellsItem spells ([] ++ (text ++ [])) v := .mk rfl h rfl
  rwa [List.nil_append, List.append_nil] at hitem

theorem SpellsMember.of_item (k : String) (h : SpellsItem spells text v) :
    SpellsMember spells ((renderText k).toList ++ ':' :: text) (k, v) := by
  have hmember : SpellsMember spells
      ([] ++ '"' :: (k.toList.flatMap escaped ++ '"' :: ([] ++ ':' :: text)))
      (String.ofList k.toList, v) := .mk rfl (isContent_flatMap k.toList) rfl h
  rw [renderText_append]
  rwa [String.ofList_toList] at hmember

end

/-! ## Blanks -/

theorem skipSpace_cons {c : Char} (h : isSpace c = false) (rest : List Char) :
    skipSpace (c :: rest) = c :: rest := by
  unfold skipSpace
  rw [List.dropWhile_cons, h]
  rfl

theorem endsNumber_cons {c : Char} (hc : c = ',' ∨ c = ']' ∨ c = '}' ∨ isSpace c = true)
    (rest : List Char) : EndsNumber (c :: rest) := by
  rintro c' hc'
  cases hc'
  simp only [isSpace, Bool.or_eq_true, decide_eq_true_eq] at hc
  rcases hc with rfl | rfl | rfl | ((rfl | rfl) | rfl) | rfl <;> decide

theorem exists_spaces (cs : List Char) : ∃ blanks, Blanks blanks ∧ cs = blanks ++ skipSpace cs :=
  ⟨cs.takeWhile isSpace, List.all_takeWhile, (List.takeWhile_append_dropWhile ..).symm⟩

/-- Blanks are dropped up to what is none. -/
theorem Blanks.skipSpace_append {blanks cs : List Char} (h : Blanks blanks)
    (hcs : skipSpace cs = cs) : skipSpace (blanks ++ cs) = cs := by
  have hskip : skipSpace (blanks ++ cs) = skipSpace cs :=
    List.dropWhile_append_of_pos (List.all_eq_true.mp h)
  rw [hskip, hcs]

/-- No number goes on with blanks, nor with what does not go on a number. -/
theorem Blanks.endsNumber {blanks tail : List Char} (h : Blanks blanks) (htail : EndsNumber tail) :
    EndsNumber (blanks ++ tail) := by
  cases blanks with
  | nil => exact htail
  | cons c rest =>
    exact endsNumber_cons (.inr (.inr (.inr (List.all_eq_true.mp h c List.mem_cons_self)))) _

/-! ## Scalars -/

theorem scalar?_eq_some {cs rest : List Char} {v : Json} (h : scalar? cs = some (v, rest)) :
    ∃ text, SpellsScalar text v ∧ cs = text ++ rest := by
  unfold scalar? at h
  split at h
  · cases h
    exact ⟨_, .null, rfl⟩
  · cases h
    exact ⟨_, .true, rfl⟩
  · cases h
    exact ⟨_, .false, rfl⟩
  · obtain ⟨⟨s, _⟩, hs, heq⟩ := Option.map_eq_some_iff.mp h
    obtain ⟨content, hcontent, rfl⟩ := stringBody?_eq_some_iff.mp hs
    cases heq
    exact ⟨_, .text hcontent, by simp⟩
  · obtain ⟨n, m, hnegative, hm, rfl, rfl⟩ := unsigned?_eq_some h
    refine ⟨n.chars, .number hm, ?_⟩
    unfold Numeral.chars
    rw [hnegative]
    rfl
  · obtain ⟨n, m, hnegative, hm, rfl, rfl⟩ := unsigned?_eq_some h
    refine ⟨n.chars, .number hm, ?_⟩
    unfold Numeral.chars
    rw [hnegative]
    rfl

/-- A text that is read to its end is spelled. -/
theorem spellsScalar_of_read {text : List Char} {v : Json} (h : scalar? text = some (v, [])) :
    SpellsScalar text v := by
  obtain ⟨text', htext, rfl⟩ := scalar?_eq_some h
  rwa [List.append_nil]

theorem SpellsScalar.scalar? {text : List Char} {v : Json} (h : SpellsScalar text v)
    {tail : List Char} (htail : EndsNumber tail) :
    Json.scalar? (text ++ tail) = some (v, tail) := by
  cases h with
  | null => rfl
  | true => rfl
  | false => rfl
  | @number n m hm => exact n.scalar?_chars hm htail
  | @text content s hcontent =>
    show (stringBody? (content ++ ['"'] ++ tail)).map _ = _
    rw [List.append_assoc, List.singleton_append, stringBody?_content hcontent]
    rfl

/-! ## Rows -/

section Row

variable {α : Type}

/-- How a row goes on behind an entry: it is closed, or a comma and the other entries follow. -/
inductive GoesOn (others : List Char → Option (List α × List Char)) (close : Char) (a : α) :
    List Char → List α × List Char → Prop
  | closed {rest : List Char} : GoesOn others close a (close :: rest) ([a], rest)
  | comma {cs rest : List Char} {as : List α} : others cs = some (as, rest) →
      GoesOn others close a (',' :: cs) (a :: as, rest)

/-- A scanner reads entries up to what closes the row, at most as many as its first argument. -/
structure IsRow (entry : List Char → α → List Char → Prop) (close : Char)
    (row : Nat → List Char → Option (List α × List Char)) : Prop where
  zero : ∀ cs, row 0 cs = none
  succ : ∀ fuel cs r, row (fuel + 1) cs = some r ↔
    ∃ a after, entry cs a after ∧ GoesOn (row fuel) close a (skipSpace after) r

/-- What ends an entry of a row. -/
def EndsEntry (close : Char) (tail : List Char) : Prop :=
  ∃ rest, tail = ',' :: rest ∨ tail = close :: rest

theorem GoesOn.endsEntry {others : List Char → Option (List α × List Char)} {close : Char} {a : α}
    {cs : List Char} {r : List α × List Char} (h : GoesOn others close a cs r) :
    EndsEntry close cs := by
  cases h with
  | closed => exact ⟨_, .inr rfl⟩
  | comma => exact ⟨_, .inl rfl⟩

/-- Entries are read exactly where they are spelled, the blanks behind them included. -/
structure ReadsEntry (entry : List Char → α → List Char → Prop) (close : Char)
    (spells : List Char → α → Prop) : Prop where
  sound : ∀ {cs a after}, entry cs a after →
    ∃ text, cs = text ++ after ∧ ∀ blanks, Blanks blanks → spells (text ++ blanks) a
  complete : ∀ {text a tail}, spells text a → EndsEntry close tail →
    ∃ after, entry (text ++ tail) a after ∧ skipSpace after = tail

variable {entry : List Char → α → List Char → Prop} {close : Char}
  {row : Nat → List Char → Option (List α × List Char)} {spells : List Char → α → Prop}

/-- A row that is read starts with an entry. -/
theorem IsRow.exists_entry (hrow : IsRow entry close row) {fuel : Nat} {cs : List Char}
    {r : List α × List Char} (h : row fuel cs = some r) :
    ∃ fewer a after, entry cs a after ∧ GoesOn (row fewer) close a (skipSpace after) r := by
  cases fuel with
  | zero =>
    rw [hrow.zero] at h
    exact nomatch h
  | succ fuel => exact ⟨fuel, (hrow.succ fuel cs r).mp h⟩

theorem IsRow.sound (hrow : IsRow entry close row) (hentry : ReadsEntry entry close spells)
    {fuel : Nat} {cs rest : List Char} {as : List α} (h : row fuel cs = some (as, rest)) :
    ∃ text, SpellsRow spells text as ∧ cs = text ++ close :: rest := by
  induction fuel generalizing cs as with
  | zero =>
    rw [hrow.zero] at h
    exact nomatch h
  | succ fuel ih =>
    obtain ⟨a, after, ha, hon⟩ := (hrow.succ fuel cs _).mp h
    obtain ⟨text, rfl, hspells⟩ := hentry.sound ha
    obtain ⟨blanks, hblanks, hafter⟩ := exists_spaces after
    generalize hnext : skipSpace after = next at hon hafter
    cases hon with
    | closed => exact ⟨_, .last (hspells blanks hblanks), by rw [hafter, List.append_assoc]⟩
    | comma hmore =>
      obtain ⟨others, hothers, rfl⟩ := ih hmore
      exact ⟨_, .more (hspells blanks hblanks) hothers, by rw [hafter]; simp⟩

/-- There are no more entries than commas between them, and one. -/
theorem SpellsRow.length_le {text : List Char} {as : List α} (h : SpellsRow spells text as) :
    as.length ≤ text.length + 1 := by
  induction h with
  | last _ => exact Nat.le_add_left _ _
  | more _ _ ih =>
    rw [List.length_append, List.length_cons, List.length_cons]
    omega

theorem IsRow.complete (hrow : IsRow entry close row) (hentry : ReadsEntry entry close spells)
    {text : List Char} {as : List α} (h : SpellsRow spells text as) (tail : List Char) {fuel : Nat}
    (hfuel : as.length ≤ fuel) : row fuel (text ++ close :: tail) = some (as, tail) := by
  induction h generalizing fuel with
  | last hlast =>
    obtain ⟨fuel, rfl⟩ := Nat.exists_eq_add_of_le' hfuel
    obtain ⟨after, ha, hafter⟩ := hentry.complete hlast ⟨tail, .inr rfl⟩
    exact (hrow.succ _ _ _).mpr ⟨_, after, ha, hafter ▸ .closed⟩
  | @more text rest a others hfirst hmore ih =>
    obtain ⟨fuel, rfl⟩ := Nat.exists_eq_add_of_le' (Nat.le_trans (Nat.le_add_left 1 _) hfuel)
    obtain ⟨after, ha, hafter⟩ := hentry.complete hfirst
      ⟨rest ++ close :: tail, .inl rfl⟩
    rw [List.append_assoc, List.cons_append]
    exact (hrow.succ _ _ _).mpr
      ⟨_, after, ha, hafter ▸ .comma (ih (Nat.le_of_succ_le_succ hfuel))⟩

end Row

/-! ## Entries -/

/-- A value starts neither with a blank nor with the end of a container. -/
theorem value?_head {n : Nat} {cs : List Char} {r : Json × List Char}
    (h : value? n cs = some r) : skipSpace cs = cs ∧ ∀ rest, cs ≠ ']' :: rest := by
  have hnone : ∀ c rest, (isSpace c = true ∨ c = ']') → value? n (c :: rest) = none := by
    intro c rest hc
    rcases hc with hc | rfl
    · simp only [isSpace, Bool.or_eq_true, decide_eq_true_eq] at hc
      rcases hc with ((rfl | rfl) | rfl) | rfl <;> cases n <;> rfl
    · cases n <;> rfl
  cases cs with
  | nil =>
    refine ⟨rfl, ?_⟩
    intro rest hc
    exact nomatch hc
  | cons c more =>
    refine ⟨skipSpace_cons ?_ more, ?_⟩
    · by_contra hc
      rw [hnone c more (.inl (Bool.not_eq_false _ ▸ hc))] at h
      exact nomatch h
    · intro rest heq
      rw [heq, hnone ']' rest (.inr rfl)] at h
      exact nomatch h

/-- A scanner reads a value exactly where it is spelled, if what follows does not go on a number;
it stops at blanks and at the end of an array. -/
structure ReadsValue (read : List Char → Option (Json × List Char))
    (spells : List Char → Json → Prop) : Prop where
  sound : ∀ {cs v rest}, read cs = some (v, rest) → ∃ text, spells text v ∧ cs = text ++ rest
  complete : ∀ {text v tail}, spells text v → EndsNumber tail → read (text ++ tail) = some (v, tail)
  head : ∀ {cs r}, read cs = some r → skipSpace cs = cs ∧ ∀ rest, cs ≠ ']' :: rest

section Container

variable {read : List Char → Option (Json × List Char)} {spells : List Char → Json → Prop}

/-- A value stands at the front, blanks aside. -/
def ItemAt (read : List Char → Option (Json × List Char)) (cs : List Char) (v : Json)
    (after : List Char) : Prop := read (skipSpace cs) = some (v, after)

/-- A key in quotes, a colon and a value stand at the front, blanks aside. -/
inductive MemberAt (read : List Char → Option (Json × List Char)) :
    List Char → String × Json → List Char → Prop
  | mk {cs content key behind text after : List Char} {v : Json} :
      skipSpace cs = '"' :: content → stringBody? content = some (key, behind) →
      skipSpace behind = ':' :: text → ItemAt read text v after →
      MemberAt read cs (String.ofList key, v) after

theorem isRow_items? (read : List Char → Option (Json × List Char)) :
    IsRow (ItemAt read) ']' (items? read) where
  zero _ := rfl
  succ fuel cs r := by
    simp only [items?, Option.bind_eq_bind, Option.bind_eq_some_iff, Prod.exists]
    refine exists₂_congr fun v after => and_congr_right fun _ => ⟨fun h => ?_, fun h => ?_⟩
    · split at h
      · rename_i hnext
        obtain ⟨⟨items, rest⟩, hitems, heq⟩ := Option.bind_eq_some_iff.mp h
        cases heq
        rw [hnext]
        exact .comma hitems
      · rename_i hnext
        cases h
        rw [hnext]
        exact .closed
      · cases h
    · generalize skipSpace after = next at h
      cases h with
      | closed => rfl
      | comma hitems =>
        show ((items? read fuel _).bind _) = _
        rw [hitems]
        rfl

theorem isRow_members? (read : List Char → Option (Json × List Char)) :
    IsRow (MemberAt read) '}' (members? read) where
  zero _ := rfl
  succ fuel cs r := by
    constructor
    · intro h
      unfold members? at h
      split at h
      · rename_i hquote
        simp only [Option.bind_eq_bind, Option.bind_eq_some_iff, Prod.exists] at h
        obtain ⟨key, behind, hkey, h⟩ := h
        split at h
        · rename_i hcolon
          obtain ⟨⟨v, after⟩, hvalue, h⟩ := Option.bind_eq_some_iff.mp h
          refine ⟨_, after, .mk hquote hkey hcolon hvalue, ?_⟩
          dsimp only at h
          split at h
          · rename_i hnext
            obtain ⟨⟨members, rest⟩, hmembers, heq⟩ := Option.bind_eq_some_iff.mp h
            cases heq
            rw [hnext]
            exact .comma hmembers
          · rename_i hnext
            cases h
            rw [hnext]
            exact .closed
          · cases h
        · cases h
      · cases h
    · rintro ⟨_, after, ⟨hquote, hkey, hcolon, hvalue⟩, h⟩
      unfold members?
      rw [hquote]
      show ((stringBody? _).bind _) = _
      rw [hkey, Option.bind_some]
      dsimp only
      rw [hcolon]
      show ((read _).bind _) = _
      rw [hvalue, Option.bind_some]
      generalize skipSpace after = next at h
      cases h with
      | closed => rfl
      | comma hmembers =>
        show ((members? read fuel _).bind _) = _
        rw [hmembers]
        rfl

/-- Where a printed key stands, the member has that key. -/
theorem MemberAt.of_key {k : String} {cs after : List Char} {m : String × Json}
    (h : MemberAt read ((renderText k).toList ++ ':' :: cs) m after) :
    ∃ v, m = (k, v) ∧ ItemAt read cs v after := by
  obtain ⟨hquote, hkey, hcolon, hvalue⟩ := h
  rw [renderText_append, skipSpace_cons rfl] at hquote
  rw [← (List.cons.inj hquote).2, stringBody?_flatMap] at hkey
  cases hkey
  rw [skipSpace_cons rfl] at hcolon
  cases hcolon
  exact ⟨_, by rw [String.ofList_toList], hvalue⟩

/-- Blanks before a member do not matter. -/
theorem MemberAt.of_skipSpace {cs cs' after : List Char} {m : String × Json}
    (h : MemberAt read cs m after) (hcs : skipSpace cs = skipSpace cs') :
    MemberAt read cs' m after := by
  obtain ⟨hquote, hkey, hcolon, hvalue⟩ := h
  exact .mk (hcs ▸ hquote) hkey hcolon hvalue

theorem EndsEntry.endsNumber {close : Char} (hclose : close = ']' ∨ close = '}') {tail : List Char}
    (h : EndsEntry close tail) : EndsNumber tail := by
  obtain ⟨rest, rfl | rfl⟩ := h
  · exact endsNumber_cons (.inl rfl) rest
  · exact endsNumber_cons (.inr (hclose.elim .inl fun h => .inr (.inl h))) rest

theorem EndsEntry.skipSpace_eq {close : Char} (hclose : close = ']' ∨ close = '}')
    {tail : List Char} (h : EndsEntry close tail) : skipSpace tail = tail := by
  obtain ⟨rest, rfl | rfl⟩ := h
  · rfl
  · rcases hclose with rfl | rfl <;> rfl

/-- The items of an array, and the values of members. -/
theorem ReadsValue.item (h : ReadsValue read spells) {close : Char}
    (hclose : close = ']' ∨ close = '}') : ReadsEntry (ItemAt read) close (SpellsItem spells) where
  sound := by
    intro cs v after hv
    obtain ⟨text, htext, hcs⟩ := h.sound hv
    obtain ⟨before, hbefore, hsplit⟩ := exists_spaces cs
    refine ⟨before ++ text, by rw [hsplit, hcs, List.append_assoc], fun blanks hblanks => ?_⟩
    rw [List.append_assoc]
    exact .mk hbefore htext hblanks
  complete := by
    intro _ v tail hv htail
    obtain ⟨hbefore, htext, hafter⟩ := hv
    rename_i before text after
    have hread := h.complete htext (hafter.endsNumber (htail.endsNumber hclose))
    refine ⟨after ++ tail, ?_, hafter.skipSpace_append (htail.skipSpace_eq hclose)⟩
    unfold ItemAt
    rw [List.append_assoc, List.append_assoc, hbefore.skipSpace_append (h.head hread).1]
    exact hread

/-- The members of an object. -/
theorem ReadsValue.member (h : ReadsValue read spells) :
    ReadsEntry (MemberAt read) '}' (SpellsMember spells) where
  sound := by
    rintro cs _ after ⟨hquote, hkey, hcolon, hvalue⟩
    rename_i _ key behind text v
    obtain ⟨before, hbefore, hsplit⟩ := exists_spaces cs
    obtain ⟨content, hcontent, rfl⟩ := stringBody?_eq_some_iff.mp hkey
    obtain ⟨between, hbetween, hbehind⟩ := exists_spaces behind
    obtain ⟨value, rfl, hspells⟩ := (h.item (.inr rfl)).sound hvalue
    refine ⟨before ++ '"' :: (content ++ '"' :: (between ++ ':' :: value)), ?_,
      fun blanks hblanks => ?_⟩
    · rw [hsplit, hquote, hbehind, hcolon]
      simp
    · have hmember := SpellsMember.mk hbefore hcontent hbetween (hspells blanks hblanks)
      simpa using hmember
  complete := by
    rintro _ _ tail ⟨hbefore, hcontent, hbetween, hvalue⟩ htail
    rename_i before content key between text v
    obtain ⟨after, hread, hafter⟩ := (h.item (.inr rfl)).complete hvalue htail
    refine ⟨after, ?_, hafter⟩
    have hkey := stringBody?_content hcontent (between ++ ':' :: (text ++ tail))
    have hquote := hbefore.skipSpace_append
      (skipSpace_cons (c := '"') rfl (content ++ '"' :: (between ++ ':' :: (text ++ tail))))
    have hcolon := hbetween.skipSpace_append (skipSpace_cons (c := ':') rfl (text ++ tail))
    have hmember := MemberAt.mk hquote hkey hcolon hread
    simpa using hmember

end Container

/-! ## Containers -/

/-- Where items are read, no array ends. -/
theorem items?_head {n fuel : Nat} {cs : List Char} {r : List Json × List Char}
    (h : items? (value? n) fuel cs = some r) (rest : List Char) : skipSpace cs ≠ ']' :: rest := by
  cases fuel with
  | zero => exact nomatch h
  | succ fuel =>
    simp only [items?, Option.bind_eq_bind, Option.bind_eq_some_iff] at h
    obtain ⟨item, hitem, -⟩ := h
    exact (value?_head hitem).2 rest

theorem value?_array {n : Nat} {cs tail : List Char} {items : List Json}
    (h : items? (value? n) cs.length cs = some (items, tail)) :
    value? (n + 1) ('[' :: cs) = some (.array items, tail) := by
  unfold value?
  split
  · rename_i heq
    cases (List.cons.inj heq).2
    split
    · rename_i hend
      exact absurd hend (items?_head h _)
    · rw [h]
      rfl
  · rename_i heq
    exact absurd (List.cons.inj heq).1 (by decide)
  · rename_i hne _
    exact absurd rfl (hne cs)

/-- Where members are read, no object ends. -/
theorem members?_head {read : List Char → Option (Json × List Char)} {fuel : Nat}
    {cs : List Char} {r : List (String × Json) × List Char}
    (h : members? read fuel cs = some r) (rest : List Char) : skipSpace cs ≠ '}' :: rest := by
  intro heq
  cases fuel with
  | zero => exact nomatch h
  | succ fuel =>
    unfold members? at h
    rw [heq] at h
    exact nomatch h

theorem value?_object {n : Nat} {cs tail : List Char} {members : List (String × Json)}
    (h : members? (value? n) cs.length cs = some (members, tail)) :
    value? (n + 1) ('{' :: cs) = some (.object (Members.gather members), tail) := by
  unfold value?
  split
  · rename_i heq
    exact absurd (List.cons.inj heq).1 (by decide)
  · rename_i heq
    cases (List.cons.inj heq).2
    split
    · rename_i hend
      exact absurd hend (members?_head h _)
    · rw [h]
      rfl
  · rename_i _ hne
    exact absurd rfl (hne _)

/-! ## All values -/

/-- What a container is read from, its entries read so. -/
theorem ReadsValue.container {n : Nat} (h : ReadsValue (value? n) (Spells n))
    {cs rest : List Char} {v : Json} (hv : value? (n + 1) cs = some (v, rest)) :
    ∃ text, Spells (n + 1) text v ∧ cs = text ++ rest := by
  unfold value? at hv
  split at hv
  · rename_i inner
    obtain ⟨blanks, hblanks, hinner⟩ := exists_spaces inner
    split at hv
    · rename_i hend
      cases hv
      exact ⟨_, .inr (.emptyArray hblanks), by rw [hinner, hend]; simp⟩
    · obtain ⟨⟨items, _⟩, hitems, heq⟩ := Option.map_eq_some_iff.mp hv
      cases heq
      obtain ⟨text, htext, rfl⟩ := (isRow_items? _).sound (h.item (.inl rfl)) hitems
      exact ⟨_, .inr (.array htext), by simp⟩
  · rename_i inner
    obtain ⟨blanks, hblanks, hinner⟩ := exists_spaces inner
    split at hv
    · rename_i hend
      cases hv
      exact ⟨_, .inr (.emptyObject hblanks), by rw [hinner, hend]; simp⟩
    · obtain ⟨⟨members, _⟩, hmembers, heq⟩ := Option.map_eq_some_iff.mp hv
      cases heq
      obtain ⟨text, htext, rfl⟩ := (isRow_members? _).sound h.member hmembers
      exact ⟨_, .inr (.object htext), by simp⟩
  · obtain ⟨text, htext, rfl⟩ := scalar?_eq_some hv
    exact ⟨text, .inl htext, rfl⟩

/-- A container is read as it is spelled, its entries read so. -/
theorem SpellsContainer.value? {n : Nat} (h : ReadsValue (Json.value? n) (Spells n))
    {text : List Char} {v : Json} (hv : SpellsContainer (Spells n) text v) (tail : List Char) :
    Json.value? (n + 1) (text ++ tail) = some (v, tail) := by
  cases hv with
  | @emptyArray blanks hblanks =>
    have hend := hblanks.skipSpace_append (skipSpace_cons (c := ']') rfl tail)
    rw [List.cons_append, List.append_assoc, List.singleton_append, Json.value?]
    rw [hend]
    rfl
  | @emptyObject blanks hblanks =>
    have hend := hblanks.skipSpace_append (skipSpace_cons (c := '}') rfl tail)
    rw [List.cons_append, List.append_assoc, List.singleton_append, Json.value?]
    rw [hend]
    rfl
  | @array text items hitems =>
    have hlength := hitems.length_le
    rw [List.cons_append, List.append_assoc, List.singleton_append]
    refine value?_array ((isRow_items? _).complete (h.item (.inl rfl)) hitems tail ?_)
    rw [List.length_append, List.length_cons]
    omega
  | @object text members hmembers =>
    have hlength := hmembers.length_le
    rw [List.cons_append, List.append_assoc, List.singleton_append]
    refine value?_object ((isRow_members? _).complete h.member hmembers tail ?_)
    rw [List.length_append, List.length_cons]
    omega

/-- At every depth, values are read exactly where they are spelled. -/
theorem readsValue_value? (depth : Nat) : ReadsValue (value? depth) (Spells depth) := by
  induction depth with
  | zero =>
    exact ⟨scalar?_eq_some, fun hv htail => SpellsScalar.scalar? hv htail, value?_head⟩
  | succ n ih =>
    refine ⟨ih.container, fun hv htail => ?_, value?_head⟩
    rcases hv with hscalar | hcontainer
    · exact value?_of_scalar? (hscalar.scalar? htail) _
    · exact hcontainer.value? ih _

/-- A value is a scalar or starts with a bracket. -/
theorem Spells.scalar_or_bracket {depth : Nat} {text : List Char} {v : Json}
    (h : Spells depth text v) :
    SpellsScalar text v ∨ ∃ c rest, text = c :: rest ∧ (c = '[' ∨ c = '{') := by
  cases depth with
  | zero => exact .inl h
  | succ depth =>
    rcases h with hscalar | hcontainer
    · exact .inl hscalar
    · cases hcontainer with
      | emptyArray | array => exact .inr ⟨_, _, rfl, .inl rfl⟩
      | emptyObject | object => exact .inr ⟨_, _, rfl, .inr rfl⟩

/-- What starts with a brace and goes on with a member is an object. -/
theorem exists_members?_of_value? {n : Nat} {cs rest : List Char} {v : Json}
    (h : value? (n + 1) ('{' :: cs) = some (v, rest)) (hne : ∀ more, skipSpace cs ≠ '}' :: more) :
    ∃ members, members? (value? n) cs.length cs = some (members, rest) ∧
      v = .object (Members.gather members) := by
  unfold value? at h
  split at h
  · rename_i heq
    exact absurd (List.cons.inj heq).1 (by decide)
  · rename_i heq
    obtain rfl := (List.cons.inj heq).2
    split at h
    · rename_i hend
      exact absurd hend (hne _)
    · obtain ⟨⟨members, _⟩, hmembers, heq⟩ := Option.map_eq_some_iff.mp h
      cases heq
      exact ⟨members, hmembers, rfl⟩
  · rename_i _ hbrace
    exact absurd rfl (hbrace cs)

/-- The keys of an object are distinct. -/
theorem Spells.nodup {depth : Nat} {text : List Char} {members : Members}
    (h : Spells depth text (.object members)) : (members.map Prod.fst).Nodup := by
  cases depth with
  | zero => exact nomatch h
  | succ depth =>
    rcases h with hscalar | hcontainer
    · exact nomatch hscalar
    · cases hcontainer with
      | emptyObject => exact List.nodup_nil
      | object => exact Members.nodup_gather _

/-- A text is JSON exactly if a value is spelled in it, with blanks around it. -/
theorem parse?_eq_some_iff {s : String} {v : Json} :
    parse? s = some v ↔ SpellsItem (Spells depthLimit) s.toList v := by
  have hreads := readsValue_value? depthLimit
  unfold parse? parseWithin?
  constructor
  · intro h
    obtain ⟨before, hbefore, hsplit⟩ := exists_spaces s.toList
    obtain ⟨⟨v', rest⟩, hread, h⟩ := Option.bind_eq_some_iff.mp h
    dsimp only at h
    split_ifs at h with hempty
    cases h
    obtain ⟨text, htext, heq⟩ := hreads.sound hread
    rw [hsplit, heq]
    exact .mk hbefore htext
      (List.all_eq_true.mpr (List.dropWhile_eq_nil_iff.mp (List.isEmpty_iff.mp hempty)))
  · intro h
    generalize s.toList = cs at h
    obtain ⟨hbefore, htext, hafter⟩ := h
    rename_i before text after
    have hread := hreads.complete htext (hafter.endsNumber endsNumber_nil)
    have hrest : skipSpace (after ++ []) = [] := hafter.skipSpace_append rfl
    rw [List.append_nil] at hread hrest
    rw [hbefore.skipSpace_append (hreads.head hread).1, hread, Option.bind_eq_bind,
      Option.bind_some]
    dsimp only
    rw [hrest]
    rfl

/-- A text is no container. -/
theorem Spells.scalar_of_text {depth : Nat} {text : List Char} {t : String}
    (h : Spells depth text (.text t)) : SpellsScalar text (.text t) := by
  cases depth with
  | zero => exact h
  | succ depth =>
    rcases h with hscalar | hcontainer
    · exact hscalar
    · cases hcontainer

/-- Blanks hold no quote. -/
theorem Blanks.quote_notMem {blanks : List Char} (h : Blanks blanks) : '"' ∉ blanks := fun hmem =>
  absurd (List.all_eq_true.mp h '"' hmem) (by decide)

/-- What stands between two quotes is read as a text exactly if it is the content of a string. -/
theorem parse?_quotes {body : List Char} {t : String} :
    parse? (String.ofList ('"' :: (body ++ ['"']))) = some (.text t) ↔ IsContent body t.toList := by
  rw [parse?_eq_some_iff, String.toList_ofList]
  constructor
  · intro h
    generalize hcs : '"' :: (body ++ ['"']) = cs at h
    cases h with
    | @mk before text after _ hbefore htext hafter =>
      have hscalar := htext.scalar_of_text
      generalize hv : Json.text t = v at hscalar
      cases hscalar with
      | @text content s hcontent =>
        cases hv
        have hnone : before = [] := by
          cases before with
          | nil => rfl
          | cons c before =>
            obtain ⟨rfl, -⟩ := List.cons.inj hcs
            exact absurd List.mem_cons_self hbefore.quote_notMem
        subst hnone
        have hbody : body ++ ['"'] = content ++ '"' :: after := by simpa using hcs
        obtain rfl | ⟨after, c, rfl⟩ := List.eq_nil_or_concat after
        · rwa [String.toList_ofList, List.append_cancel_right hbody]
        · rw [List.concat_eq_append] at hbody hafter
          have hends := congrArg List.getLast? hbody
          rw [← List.cons_append, ← List.append_assoc, List.getLast?_concat,
            List.getLast?_concat] at hends
          obtain rfl := Option.some.inj hends
          exact absurd (List.mem_append_right after List.mem_cons_self) hafter.quote_notMem
      | _ => cases hv
  · intro h
    have hspelled : SpellsScalar ('"' :: (body ++ ['"'])) (.text (String.ofList t.toList)) := .text h
    rw [String.ofList_toList] at hspelled
    exact .of_spells (.of_scalar hspelled)

end Placement.Json
