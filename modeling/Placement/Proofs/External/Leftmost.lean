import Placement.Proofs.Double.Scientific
import Placement.Proofs.External.Prose
import Placement.Proofs.Json.Grammar
/-
  Which score and which reasoning are found in a text. `Shows key v cs` says what a pattern matches
  at a position: a key in quotes, a colon with blanks around it, and `v` behind it.

  * `scoreAt?_eq_some`: the scanner of a score takes the longest one (`IsScore`).
  * `reasoningAt?_eq_some_iff`: that of a reasoning takes the only body in quotes (`IsBody`).
  * `leftmost?_eq_some`: the search takes the first position that has one.

  `parse?_leftmost`, for every text: one that spells an object with a score (`IsAnswer`, by the
  grammar of JSON) is read as that, any other at its leftmost score, and only one that shows none is
  not read at all.
-/
namespace Placement

namespace Reply

open Double (Denotes rounded)

/-! ## The search -/

section Search

variable {β : Type} {f : List Char → Option β}

/-- Nothing is found exactly when no position has a result. -/
theorem leftmost?_eq_none {cs : List Char} :
    leftmost? f cs = none ↔ ∀ i, f (cs.drop i) = none := by
  induction cs with
  | nil =>
    rw [leftmost?]
    constructor
    · intro h i
      rwa [List.drop_nil]
    · intro h
      exact h 0
  | cons c rest ih =>
    constructor
    · intro h i
      cases hf : f (c :: rest) with
      | some b =>
        rw [leftmost?_cons_of_some hf] at h
        exact absurd h (Option.some_ne_none b)
      | none =>
        rw [leftmost?_cons_of_none hf] at h
        cases i with
        | zero => exact hf
        | succ i => exact ih.mp h i
    · intro h
      rw [leftmost?_cons_of_none (h 0)]
      exact ih.mpr fun i => h (i + 1)

/-- What is found is the result at the first position that has one. -/
theorem leftmost?_eq_some {cs : List Char} {b : β} (h : leftmost? f cs = some b) :
    ∃ i, f (cs.drop i) = some b ∧ ∀ j < i, f (cs.drop j) = none := by
  induction cs with
  | nil => exact ⟨0, h, fun j hj => absurd hj (Nat.not_lt_zero j)⟩
  | cons c rest ih =>
    cases hf : f (c :: rest) with
    | some b' =>
      rw [leftmost?_cons_of_some hf] at h
      exact ⟨0, hf.trans h, fun j hj => absurd hj (Nat.not_lt_zero j)⟩
    | none =>
      rw [leftmost?_cons_of_none hf] at h
      obtain ⟨i, hi, hbefore⟩ := ih h
      refine ⟨i + 1, hi, fun j hj => ?_⟩
      cases j with
      | zero => exact hf
      | succ j => exact hbefore j (by omega)

end Search

/-! ## What stands behind a key -/

/-- A text starts with a quoted key, a colon with blanks around it, and then `v`. -/
def Shows (key : String) (v cs : List Char) : Prop :=
  ∃ before after rest, before.all Text.isBlank = true ∧ after.all Text.isBlank = true ∧
    cs = (['"'] ++ key.toList ++ ['"']) ++ (before ++ ':' :: (after ++ (v ++ rest)))

/-- Blanks at the front are dropped up to what is none. -/
theorem skipBlanks_append {blanks : List Char} (h : blanks.all Text.isBlank = true) {c : Char}
    (hc : Text.isBlank c = false) (rest : List Char) :
    Text.skipBlanks (blanks ++ c :: rest) = c :: rest := by
  have hskip : Text.skipBlanks (blanks ++ c :: rest) = Text.skipBlanks (c :: rest) :=
    List.dropWhile_append_of_pos (List.all_eq_true.mp h)
  rw [hskip, Text.skipBlanks_cons hc]

/-- What starts with blanks, and how it goes on. -/
theorem exists_blanks (cs : List Char) :
    ∃ blanks, blanks.all Text.isBlank = true ∧ cs = blanks ++ Text.skipBlanks cs :=
  ⟨cs.takeWhile Text.isBlank, List.all_takeWhile, (List.takeWhile_append_dropWhile ..).symm⟩

/-- A text shows `v` behind a key exactly if `v` starts where the scanner of the key stops. -/
theorem shows_iff {key : String} {c : Char} {v : List Char} (hc : Text.isBlank c = false)
    (cs : List Char) :
    Shows key (c :: v) cs ↔ ∃ tail, afterKey? key cs = some tail ∧ c :: v <+: tail := by
  constructor
  · rintro ⟨before, after, rest, hbefore, hafter, rfl⟩
    have hfront : List.isPrefixOf? (['"'] ++ key.toList ++ ['"'])
        ((['"'] ++ key.toList ++ ['"']) ++ (before ++ ':' :: (after ++ (c :: v ++ rest))))
        = some (before ++ ':' :: (after ++ (c :: v ++ rest))) :=
      List.isPrefixOf?_eq_some_iff_append_eq.mpr rfl
    refine ⟨c :: v ++ rest, ?_, List.prefix_append _ _⟩
    unfold afterKey?
    rw [hfront, Option.bind_eq_bind, Option.bind_some, skipBlanks_append hbefore rfl]
    exact congrArg some (skipBlanks_append hafter hc (v ++ rest))
  · rintro ⟨tail, h, rest, rfl⟩
    unfold afterKey? at h
    rw [Option.bind_eq_bind, Option.bind_eq_some_iff] at h
    obtain ⟨behind, hfront, h⟩ := h
    obtain rfl := List.isPrefixOf?_eq_some_iff_append_eq.mp hfront
    obtain ⟨before, hbefore, hsplit⟩ := exists_blanks behind
    split at h
    · rename_i more hmore
      obtain ⟨after, hafter, hsplit'⟩ := exists_blanks more
      rw [Option.some.inj h] at hsplit'
      exact ⟨before, after, rest, hbefore, hafter, by rw [hsplit, hmore, hsplit']⟩
    · exact nomatch h

/-! ## Scores -/

/-- A run of digits. -/
def AreDigits (cs : List Char) : Prop := ∀ c ∈ cs, c.isDigit = true

/-- A score as it may be written in prose: digits, perhaps a point, and at least one digit. -/
def IsScore (d : List Char) : Prop :=
  ∃ whole point digits, d = whole ++ point ++ digits ∧ AreDigits whole ∧
    (point = [] ∨ point = ['.']) ∧ AreDigits digits ∧ digits ≠ []

/-- The number that a score denotes: its digits, over ten for each behind the point. -/
def worth (d : List Char) : ℚ :=
  Decimal.ofDigits (d.filter Char.isDigit) / 10 ^ ((d.dropWhile Char.isDigit).drop 1).length

/-- A fraction behind its point; no point without a fraction. -/
def pointed (fraction : List Char) : List Char := if fraction = [] then [] else '.' :: fraction

/-- A run of digits at the front is split off whole, whatever follows. -/
theorem length_le_spanDigits {ds : List Char} (hd : AreDigits ds) (tail : List Char) :
    ds.length ≤ (Decimal.spanDigits (ds ++ tail)).1.length := by
  unfold Decimal.spanDigits
  rw [List.span_eq_takeWhile_dropWhile]
  dsimp only
  rw [List.takeWhile_append_of_pos hd, List.length_append]
  exact Nat.le_add_right _ _

theorem noDigit_point (rest : List Char) : Decimal.NoDigit ('.' :: rest) := by
  intro c hc
  cases hc
  rfl

/-- A score is digits, or digits around a point. -/
theorem IsScore.cases {d : List Char} (h : IsScore d) :
    AreDigits d ∨ ∃ whole digits, d = whole ++ '.' :: digits ∧ AreDigits whole ∧
      AreDigits digits ∧ digits ≠ [] := by
  obtain ⟨whole, point, digits, rfl, hwhole, rfl | rfl, hdigits, hne⟩ := h
  · refine .inl fun c hc => ?_
    rw [List.append_nil, List.mem_append] at hc
    exact hc.elim (hwhole c) (hdigits c)
  · exact .inr ⟨whole, digits, by simp, hwhole, hdigits, hne⟩

/-- No score is empty, and none starts with a blank. -/
theorem IsScore.head {d : List Char} (h : IsScore d) :
    ∃ c v, d = c :: v ∧ Text.isBlank c = false := by
  obtain ⟨whole, point, digits, rfl, hwhole, hpoint, hdigits, hne⟩ := h
  obtain ⟨c, rest, hd⟩ := List.exists_cons_of_ne_nil hne
  rcases whole with _ | ⟨w, whole⟩
  · rcases hpoint with rfl | rfl
    · exact ⟨c, rest, by rw [hd]; rfl,
        Text.not_isBlank_of_isDigit (hdigits c (hd ▸ List.mem_cons_self))⟩
    · exact ⟨'.', digits, rfl, rfl⟩
  · exact ⟨w, whole ++ point ++ digits, rfl,
      Text.not_isBlank_of_isDigit (hwhole w List.mem_cons_self)⟩

theorem length_lt_pointed {digits fraction : List Char} (hne : digits ≠ [])
    (h : digits.length ≤ fraction.length) : digits.length < (pointed fraction).length := by
  have hpos := List.length_pos_of_ne_nil hne
  unfold pointed
  split_ifs with hnil
  · rw [hnil, List.length_nil] at h
    omega
  · rw [List.length_cons]
    omega

theorem pointed_front (more : List Char) :
    pointed (Decimal.spanDigits more).1 <+: '.' :: more := by
  obtain ⟨-, hsplit⟩ := Decimal.spanDigits_split more
  unfold pointed
  split_ifs
  · exact List.nil_prefix
  · exact ⟨_, congrArg ('.' :: ·) hsplit.symm⟩

/-- The scanner splits off a run of digits and a fraction at the front, and no score there is longer
than both. -/
theorem score?_scan (cs : List Char) :
    ∃ whole fraction, AreDigits whole ∧ AreDigits fraction ∧ whole ++ pointed fraction <+: cs ∧
      (∀ d, IsScore d → d <+: cs → d.length ≤ (whole ++ pointed fraction).length) ∧
      score? cs = if whole.isEmpty && fraction.isEmpty then none
        else some ⟨false, whole, fraction, 0⟩ := by
  obtain ⟨hwhole, hsplit⟩ := Decimal.spanDigits_split cs
  -- a score with a point ends the digits before it there
  have hcases : ∀ d, IsScore d → d <+: cs → d.length ≤ (Decimal.spanDigits cs).1.length ∨
      ∃ digits tail, (Decimal.spanDigits cs).2 = '.' :: (digits ++ tail) ∧ AreDigits digits ∧
        digits ≠ [] ∧ d.length = (Decimal.spanDigits cs).1.length + digits.length + 1 := by
    rintro d hd ⟨tail, rfl⟩
    rcases hd.cases with hd | ⟨before, digits, rfl, hbefore, hdigits, hne⟩
    · exact .inl (length_le_spanDigits hd tail)
    · have hscan := Decimal.spanDigits_of_digits hbefore (noDigit_point (digits ++ tail))
      rw [List.append_assoc, List.cons_append, hscan]
      exact .inr ⟨digits, tail, rfl, hdigits, hne, by simp; omega⟩
  unfold score?
  dsimp only
  generalize (Decimal.spanDigits cs).1 = whole at hwhole hsplit hcases
  generalize (Decimal.spanDigits cs).2 = behind at hsplit hcases
  have hplain (hno : ∀ more, behind ≠ '.' :: more) (d : List Char) (hd : IsScore d)
      (hfront : d <+: cs) : d.length ≤ (whole ++ pointed []).length := by
    rcases hcases d hd hfront with h | ⟨_, _, h, -⟩
    · simpa [pointed] using h
    · exact absurd h (hno _)
  rcases behind with _ | ⟨c, more⟩
  · refine ⟨whole, [], hwhole, nofun, ?_, hplain nofun, rfl⟩
    rw [hsplit]
    exact List.prefix_rfl
  by_cases hc : c = '.'
  · subst hc
    refine ⟨whole, (Decimal.spanDigits more).1, hwhole, (Decimal.spanDigits_split more).1, ?_,
      fun d hd hfront => ?_, rfl⟩
    · rw [hsplit]
      exact (List.prefix_append_right_inj whole).mpr (pointed_front more)
    · rw [List.length_append]
      rcases hcases d hd hfront with h | ⟨digits, tail, h, hdigits, hne, hlength⟩
      · omega
      · cases h
        have hlt := length_lt_pointed hne (length_le_spanDigits hdigits tail)
        omega
  · refine ⟨whole, [], hwhole, nofun, ?_, hplain fun _ h => hc (List.cons.inj h).1, ?_⟩
    · rw [hsplit]
      exact (List.prefix_append_right_inj whole).mpr List.nil_prefix
    · split
      · rename_i h
        exact absurd (List.cons.inj h).1 hc
      · rfl

/-- The digits of a score and the places behind its point are those it was put together of. -/
theorem worth_pointed {whole fraction : List Char} (hwhole : AreDigits whole)
    (hfraction : AreDigits fraction) :
    worth (whole ++ pointed fraction)
      = Decimal.ofDigits (whole ++ fraction) / 10 ^ fraction.length := by
  have hwhole' : whole.filter Char.isDigit = whole := List.filter_eq_self.mpr hwhole
  unfold worth pointed
  split_ifs with hnil
  · subst hnil
    have hnone : whole.dropWhile Char.isDigit = [] := List.dropWhile_eq_nil_iff.mpr hwhole
    rw [List.append_nil, hwhole', hnone]
    rfl
  · have hpoint : ('.' :: fraction).filter Char.isDigit = fraction :=
      List.filter_eq_self.mpr hfraction
    have hbehind : (whole ++ '.' :: fraction).dropWhile Char.isDigit = '.' :: fraction :=
      List.dropWhile_append_of_pos hwhole
    rw [List.filter_append, hwhole', hpoint, hbehind]
    rfl

theorem isScore_pointed {whole fraction : List Char} (hwhole : AreDigits whole)
    (hfraction : AreDigits fraction) (h : (whole.isEmpty && fraction.isEmpty) = false) :
    IsScore (whole ++ pointed fraction) := by
  unfold pointed
  split_ifs with hnil
  · subst hnil
    have hne : whole ≠ [] := by
      rintro rfl
      exact nomatch h
    exact ⟨[], [], whole, by simp, nofun, .inl rfl, hwhole, hne⟩
  · exact ⟨whole, ['.'], fraction, by simp, hwhole, .inr rfl, hfraction, hnil⟩

/-- The double of a score is the nearest one to its worth. -/
theorem denotes_worth {whole fraction : List Char} (hwhole : AreDigits whole)
    (hfraction : AreDigits fraction) :
    Denotes (Decimal.Literal.toFloat ⟨false, whole, fraction, 0⟩)
      (rounded (worth (whole ++ pointed fraction))) := by
  have hvalue : worth (whole ++ pointed fraction) = Decimal.Scaled.value
      ⟨Decimal.ofDigits (whole ++ fraction), 0 - fraction.length⟩ := by
    unfold Decimal.Scaled.value
    rw [worth_pointed hwhole hfraction, zero_sub, zpow_neg, zpow_natCast, div_eq_mul_inv]
  rw [hvalue]
  exact Decimal.denotes_scaled _

/-- A point without digits behind it is no part of a score. -/
example : score? "12., then 0.5".toList = some ⟨false, ['1', '2'], [], 0⟩ := rfl

/-- Nothing is scanned exactly where no score is. -/
theorem score?_eq_none (cs : List Char) : score? cs = none ↔ ∀ d, IsScore d → ¬ d <+: cs := by
  obtain ⟨whole, fraction, hwhole, hfraction, hfront, hlongest, hscan⟩ := score?_scan cs
  rw [hscan]
  cases hempty : whole.isEmpty && fraction.isEmpty with
  | true =>
    obtain ⟨hwhole', hfraction'⟩ := Bool.and_eq_true_iff.mp hempty
    obtain rfl := List.isEmpty_iff.mp hwhole'
    obtain rfl := List.isEmpty_iff.mp hfraction'
    refine iff_of_true (if_pos rfl) fun d hd hd' => ?_
    obtain ⟨c, v, rfl, -⟩ := hd.head
    exact absurd (hlongest _ hd hd') (Nat.not_succ_le_zero _)
  | false =>
    rw [if_neg Bool.false_ne_true]
    exact iff_of_false nofun fun h => h _ (isScore_pointed hwhole hfraction hempty) hfront

/-- What is scanned is the longest score, and it is read as its worth. -/
theorem score?_eq_some {cs : List Char} {l : Decimal.Literal} (h : score? cs = some l) :
    ∃ d, IsScore d ∧ d <+: cs ∧ (∀ d', IsScore d' → d' <+: cs → d'.length ≤ d.length) ∧
      Denotes l.toFloat (rounded (worth d)) := by
  obtain ⟨whole, fraction, hwhole, hfraction, hfront, hlongest, hscan⟩ := score?_scan cs
  rw [hscan] at h
  cases hempty : whole.isEmpty && fraction.isEmpty with
  | true =>
    rw [hempty] at h
    exact nomatch h
  | false =>
    rw [hempty, if_neg Bool.false_ne_true] at h
    obtain rfl := Option.some.inj h
    exact ⟨_, isScore_pointed hwhole hfraction hempty, hfront, hlongest,
      denotes_worth hwhole hfraction⟩

/-- A text shows a score behind a key where the scanner of the key stops at one. -/
theorem IsScore.shows_iff {d : List Char} (h : IsScore d) {key : String} (cs : List Char) :
    Shows key d cs ↔ ∃ tail, afterKey? key cs = some tail ∧ d <+: tail := by
  obtain ⟨c, v, rfl, hc⟩ := h.head
  exact Reply.shows_iff hc cs

/-- No score is found at a position exactly if none stands there. -/
theorem scoreAt?_eq_none_iff (cs : List Char) :
    scoreAt? cs = none ↔ ∀ d, IsScore d → ¬ Shows "bid_score" d cs := by
  unfold scoreAt?
  cases hkey : afterKey? "bid_score" cs with
  | none =>
    refine iff_of_true rfl fun d hd hshows => ?_
    obtain ⟨tail, htail, -⟩ := (hd.shows_iff cs).mp hshows
    exact nomatch hkey.symm.trans htail
  | some tail =>
    rw [Option.bind_some, score?_eq_none]
    refine forall₂_congr fun d hd => not_congr ?_
    rw [hd.shows_iff, hkey]
    simp

/-- The score that is found at a position is the longest one there. -/
theorem scoreAt?_eq_some {cs : List Char} {l : Decimal.Literal} (h : scoreAt? cs = some l) :
    ∃ d, IsScore d ∧ Shows "bid_score" d cs ∧
      (∀ d', IsScore d' → Shows "bid_score" d' cs → d'.length ≤ d.length) ∧
      Denotes l.toFloat (rounded (worth d)) := by
  unfold scoreAt? at h
  obtain ⟨tail, hkey, hscan⟩ := Option.bind_eq_some_iff.mp h
  obtain ⟨d, hd, hfront, hlongest, hworth⟩ := score?_eq_some hscan
  refine ⟨d, hd, (hd.shows_iff cs).mpr ⟨tail, hkey, hfront⟩, fun d' hd' hshows => ?_, hworth⟩
  obtain ⟨tail', hkey', hfront'⟩ := (hd'.shows_iff cs).mp hshows
  rw [hkey, Option.some_inj] at hkey'
  exact hlongest d' hd' (hkey' ▸ hfront')

/-! ## Bodies in quotes -/

/-- A text in which every quote and backslash is escaped, and no escape ends in a line break. -/
inductive IsBody : List Char → Prop
  | nil : IsBody []
  | plain {c : Char} {b : List Char} : c ≠ '"' → c ≠ '\\' → IsBody b → IsBody (c :: b)
  | escape {c : Char} {b : List Char} : c ≠ '\n' → IsBody b → IsBody ('\\' :: c :: b)

theorem body?_plain {c : Char} (hquote : c ≠ '"') (hslash : c ≠ '\\') (rest : List Char) :
    body? (c :: rest) = (body? rest).map (c :: ·) := by
  rw [body?]
  · exact hquote
  · exact fun _ _ h _ => hslash h
  · exact fun h _ => hslash h

/-- A body is read up to its quote. -/
theorem body?_append {b : List Char} (h : IsBody b) (rest : List Char) :
    body? (b ++ '"' :: rest) = some b := by
  induction h with
  | nil => rfl
  | @plain c b hquote hslash hb ih =>
    rw [List.cons_append, body?_plain hquote hslash, ih]
    rfl
  | @escape c b hbreak hb ih =>
    rw [List.cons_append, List.cons_append, body?, if_neg hbreak, ih]
    rfl

/-- What is read is a body, and a quote stands behind it. -/
theorem body?_eq_some {cs b : List Char} (h : body? cs = some b) :
    IsBody b ∧ ∃ rest, cs = b ++ '"' :: rest := by
  fun_induction body? cs generalizing b with
  | case1 => exact nomatch h
  | case2 rest =>
    obtain rfl := Option.some.inj h
    exact ⟨.nil, rest, rfl⟩
  | case3 => exact nomatch h
  | case4 c rest hbreak ih =>
    obtain ⟨b', hb', rfl⟩ := Option.map_eq_some_iff.mp h
    obtain ⟨hbody, tail, rfl⟩ := ih hb'
    exact ⟨.escape hbreak hbody, tail, rfl⟩
  | case5 => exact nomatch h
  | case6 c rest hquote hpair hlast ih =>
    obtain ⟨b', hb', rfl⟩ := Option.map_eq_some_iff.mp h
    obtain ⟨hbody, tail, rfl⟩ := ih hb'
    -- a backslash would start a pair, since the closing quote at least is behind it
    have hslash : c ≠ '\\' := by
      rintro rfl
      obtain ⟨e, more, hmore⟩ := List.exists_cons_of_ne_nil
        (List.append_ne_nil_of_right_ne_nil b' (List.cons_ne_nil '"' tail))
      exact hpair e more rfl hmore
    exact ⟨.plain hquote hslash hbody, tail, rfl⟩

/-- A body in its quotes. -/
def quoted (b : List Char) : List Char := '"' :: (b ++ ['"'])

theorem quotedBody?_eq_some_iff {cs b : List Char} :
    quotedBody? cs = some b ↔ IsBody b ∧ quoted b <+: cs := by
  constructor
  · intro h
    unfold quotedBody? at h
    split at h
    · obtain ⟨hbody, rest, rfl⟩ := body?_eq_some h
      exact ⟨hbody, rest, by simp [quoted]⟩
    · exact nomatch h
  · rintro ⟨hbody, rest, rfl⟩
    have hread := body?_append hbody rest
    simpa [quoted, quotedBody?] using hread

/-- The reasoning that is found at a position is the body that stands there. -/
theorem reasoningAt?_eq_some_iff {cs b : List Char} :
    reasoningAt? cs = some b ↔ IsBody b ∧ Shows "reasoning" (quoted b) cs := by
  have hshows : Shows "reasoning" ('"' :: (b ++ ['"'])) cs ↔ _ := shows_iff rfl cs
  unfold reasoningAt?
  rw [Option.bind_eq_some_iff, quoted, hshows]
  simp only [quotedBody?_eq_some_iff, quoted]
  constructor
  · rintro ⟨tail, hkey, hbody, hfront⟩
    exact ⟨hbody, tail, hkey, hfront⟩
  · rintro ⟨hbody, tail, hkey, hfront⟩
    exact ⟨tail, hkey, hbody, hfront⟩

/-! ## Replies -/

/-- A reply spells a JSON object, but for blanks around it, with a number as its score. -/
def IsAnswer (s : String) (members : Json.Members) (n : Json.Number) : Prop :=
  Json.SpellsItem (Json.Spells Json.depthLimit) (Text.trim s).toList (.object members) ∧
    Json.Members.find? members "bid_score" = some (.number n)

/-- The score `d` stands behind its key at position `i` of a reply. -/
def ScoreAt (s : String) (i : ℕ) (d : List Char) : Prop :=
  IsScore d ∧ Shows "bid_score" d (s.toList.drop i)

/-- The body `b` stands in quotes behind the key of the reasoning at position `i` of a reply. -/
def ReasoningAt (s : String) (i : ℕ) (b : List Char) : Prop :=
  IsBody b ∧ Shows "reasoning" (quoted b) (s.toList.drop i)

/-- The longest score at the leftmost position of a reply that has one. -/
def LeftmostScore (s : String) (i : ℕ) (d : List Char) : Prop :=
  ScoreAt s i d ∧ (∀ j < i, ∀ d', ¬ ScoreAt s j d') ∧ ∀ d', ScoreAt s i d' → d'.length ≤ d.length

/-- The body at the leftmost position of a reply that has one. -/
def LeftmostReasoning (s : String) (i : ℕ) (b : List Char) : Prop :=
  ReasoningAt s i b ∧ ∀ j < i, ∀ b', ¬ ReasoningAt s j b'

/-- Where bodies stand, the search finds the leftmost one. -/
theorem leftmost?_reasoningAt? {s : String} {i : ℕ} {b : List Char}
    (h : LeftmostReasoning s i b) : leftmost? reasoningAt? s.toList = some b := by
  obtain ⟨hi, hbefore⟩ := h
  have hfound := reasoningAt?_eq_some_iff.mpr hi
  cases hsearch : leftmost? reasoningAt? s.toList with
  | none => exact nomatch (leftmost?_eq_none.mp hsearch i).symm.trans hfound
  | some b' =>
    obtain ⟨j, hj, hbefore'⟩ := leftmost?_eq_some hsearch
    obtain hlt | rfl | hgt := Nat.lt_trichotomy i j
    · exact nomatch (hbefore' i hlt).symm.trans hfound
    · exact hj.symm.trans hfound
    · exact absurd (reasoningAt?_eq_some_iff.mp hj) (hbefore j hgt b')

theorem ofJson?_of_isAnswer {s : String} {members : Json.Members} {n : Json.Number}
    (h : IsAnswer s members n) :
    ofJson? (Text.trim s)
      = some ⟨n.toFloat, (Json.Members.find? members "reasoning").bind Json.toText?⟩ := by
  unfold ofJson?
  rw [Json.parse?_eq_some_iff.mpr h.1, Option.bind_eq_bind, Option.bind_some]
  unfold Json.get?
  dsimp only
  rw [h.2]
  rfl

theorem ofJson?_of_not_isAnswer {s : String} (h : ∀ members n, ¬ IsAnswer s members n) :
    ofJson? (Text.trim s) = none := by
  unfold ofJson?
  cases hparse : Json.parse? (Text.trim s) with
  | none => rfl
  | some v =>
    rw [Option.bind_eq_bind, Option.bind_some]
    cases hscore : (v.get? "bid_score").bind Json.toFloat? with
    | none => rfl
    | some x =>
      obtain ⟨score, hget, hnumber⟩ := Option.bind_eq_some_iff.mp hscore
      cases v with
      | object members =>
        cases score with
        | number n => exact absurd ⟨Json.parse?_eq_some_iff.mp hparse, hget⟩ (h members n)
        | _ => exact nomatch hnumber
      | _ => exact nomatch hget

theorem ofProse?_eq_none_iff (s : String) : ofProse? s = none ↔ ∀ i d, ¬ ScoreAt s i d := by
  have hsearch : ofProse? s = none ↔ leftmost? scoreAt? s.toList = none := by
    unfold ofProse?
    cases leftmost? scoreAt? s.toList with
    | none => exact iff_of_true rfl rfl
    | some l => exact iff_of_false nofun nofun
  rw [hsearch, leftmost?_eq_none]
  refine forall_congr' fun i => ?_
  rw [scoreAt?_eq_none_iff]
  exact forall_congr' fun d => not_and.symm

theorem ofProse?_eq_some {s : String} {r : Reply} (h : ofProse? s = some r) :
    (∃ i d, LeftmostScore s i d ∧ Denotes r.bid (rounded (worth d))) ∧
      r.reasoning = (leftmost? reasoningAt? s.toList).map unescape := by
  unfold ofProse? at h
  obtain ⟨l, hsearch, h⟩ := Option.bind_eq_some_iff.mp h
  obtain rfl := Option.some.inj h
  obtain ⟨i, hi, hbefore⟩ := leftmost?_eq_some hsearch
  obtain ⟨d, hd, hshows, hlongest, hworth⟩ := scoreAt?_eq_some hi
  refine ⟨⟨i, d, ⟨⟨hd, hshows⟩, fun j hj d' hd' => ?_, fun d' hd' => ?_⟩, hworth⟩, rfl⟩
  · exact (scoreAt?_eq_none_iff _).mp (hbefore j hj) d' hd'.1 hd'.2
  · exact hlongest d' hd'.1 hd'.2

/-- A body that is the content of a JSON string means what the string does, and any other is taken
verbatim. -/
theorem unescape_spec (b : List Char) :
    (∀ t : String, Json.IsContent b t.toList → unescape b = t) ∧
      ((∀ t, ¬ Json.IsContent b t) → unescape b = String.ofList b) := by
  unfold unescape
  constructor
  · intro t ht
    have hread : Json.parse? (String.ofList (['"'] ++ b ++ ['"'])) = some (.text t) :=
      Json.parse?_quotes.mpr ht
    rw [hread]
  · intro hno
    split
    · rename_i t ht
      exact absurd (Json.parse?_quotes.mp ht) (hno t.toList)
    · rfl

/-- A reply that is a JSON object with a number as its score says that number. Any other says
nothing if no score stands in it, and else the longest one at the leftmost position, with the
reasoning at the leftmost position that has one. -/
theorem parse?_leftmost (s : String) :
    (∀ members n, IsAnswer s members n → parse? s
        = some ⟨n.toFloat, (Json.Members.find? members "reasoning").bind Json.toText?⟩) ∧
      ((∀ members n, ¬ IsAnswer s members n) →
        (parse? s = none ↔ ∀ i d, ¬ ScoreAt s i d) ∧
        ∀ r, parse? s = some r →
          (∃ i d, LeftmostScore s i d ∧ Denotes r.bid (rounded (worth d))) ∧
          ((∀ i b, ¬ ReasoningAt s i b) → r.reasoning = none) ∧
          ∀ i b, LeftmostReasoning s i b →
            (∀ t : String, Json.IsContent b t.toList → r.reasoning = some t) ∧
            ((∀ t, ¬ Json.IsContent b t) → r.reasoning = some (String.ofList b))) := by
  constructor
  · intro members n h
    unfold parse?
    rw [ofJson?_of_isAnswer h]
  · intro hno
    have hprose : parse? s = ofProse? s := by
      unfold parse?
      rw [ofJson?_of_not_isAnswer hno]
    rw [hprose]
    refine ⟨ofProse?_eq_none_iff s, fun r hr => ?_⟩
    obtain ⟨hscore, hreasoning⟩ := ofProse?_eq_some hr
    refine ⟨hscore, fun hnone => ?_, fun i b hb => ?_⟩
    · have hsearch : leftmost? reasoningAt? s.toList = none := by
        refine leftmost?_eq_none.mpr fun i => Option.eq_none_iff_forall_not_mem.mpr fun b hb => ?_
        exact hnone i b (reasoningAt?_eq_some_iff.mp hb)
      rw [hreasoning, hsearch]
      rfl
    · rw [hreasoning, leftmost?_reasoningAt? hb, Option.map_some]
      obtain ⟨hread, hverbatim⟩ := unescape_spec b
      exact ⟨fun t ht => congrArg some (hread t ht), fun h => congrArg some (hverbatim h)⟩

end Reply

end Placement
