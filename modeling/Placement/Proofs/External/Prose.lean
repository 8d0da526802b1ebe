import Mathlib.Data.List.Infix
import Placement.External.Reply
import Placement.Proofs.Json.Numeral
import Placement.Proofs.Json.RoundTrip
import Placement.Proofs.Text.Blank
/-
  A score in prose. A reply that is an object with a score, and nothing else but blanks, is read as
  JSON; with anything else around it the text is searched for the key of a score, and the number
  behind the key is read by other rules: digits, a point and digits.

  `bid_in_prose`: what is read of an object with any numeral `n` as its score, by what stands around
  it. GIVEN that the prefix has no opening brace and not the key, and that the reader of JSON rounds
  `n` correctly (`ReadExactly`). Prose drops the exponent of the score and hides a score with a
  minus, for which the next score in the text counts if there is one; a score without both survives
  it. `bid_in_prose_half` is a score that does not.
-/
namespace Placement

/-! ## The search for a score -/

namespace Reply

/-- The key of a score, in its quotes. -/
def scoreKey : List Char := "\"bid_score\"".toList

theorem leftmost?_cons_of_some {β : Type} {f : List Char → Option β} {c : Char}
    {rest : List Char} {b : β} (h : f (c :: rest) = some b) :
    leftmost? f (c :: rest) = some b := by
  rw [leftmost?, h]

theorem leftmost?_cons_of_none {β : Type} {f : List Char → Option β} {c : Char}
    {rest : List Char} (h : f (c :: rest) = none) :
    leftmost? f (c :: rest) = leftmost? f rest := by
  rw [leftmost?, h]

/-- Where nothing is found at the positions of a text, the search goes on behind it. -/
theorem leftmost?_append {β : Type} {f : List Char → Option β} {before rest : List Char}
    (h : ∀ c more, c :: more <:+ before → f (c :: more ++ rest) = none) :
    leftmost? f (before ++ rest) = leftmost? f rest := by
  induction before with
  | nil => rfl
  | cons c more ih =>
    have hfirst := h c more List.suffix_rfl
    rw [List.cons_append] at hfirst ⊢
    rw [leftmost?_cons_of_none hfirst]
    exact ih fun c' more' hsuffix => h c' more' (hsuffix.trans (List.suffix_cons c more))

/-- Nothing stands behind a key that is not there. -/
theorem afterKey?_eq_none (key : String) {cs : List Char}
    (h : ¬ ['"'] ++ key.toList ++ ['"'] <+: cs) : afterKey? key cs = none := by
  unfold afterKey?
  cases hkey : List.isPrefixOf? (['"'] ++ key.toList ++ ['"']) cs with
  | none => rfl
  | some rest => exact absurd ⟨rest, List.isPrefixOf?_eq_some_iff_append_eq.mp hkey⟩ h

/-- A score stands behind its key. -/
theorem scoreAt?_eq_none {cs : List Char} (h : ¬ scoreKey <+: cs) : scoreAt? cs = none := by
  unfold scoreAt?
  rw [afterKey?_eq_none "bid_score" h]
  rfl

/-- Behind the key stand a colon and the score. -/
theorem scoreAt?_key (cs : List Char) :
    scoreAt? (scoreKey ++ ':' :: cs) = score? (Text.skipBlanks cs) := by
  have hkey : List.isPrefixOf? (['"'] ++ "bid_score".toList ++ ['"']) (scoreKey ++ ':' :: cs)
      = some (':' :: cs) := List.isPrefixOf?_eq_some_iff_append_eq.mpr rfl
  unfold scoreAt? afterKey?
  rw [hkey]
  rfl

/-- What starts a text and does not hold `c` ends before it. -/
theorem prefix_of_not_mem {key before rest : List Char} {c : Char} (hc : c ∉ key)
    (h : key <+: before ++ c :: rest) : key <+: before := by
  have hbefore : before ++ [c] <+: before ++ c :: rest := ⟨rest, by simp⟩
  rcases List.prefix_or_prefix_of_prefix h hbefore with hkey | hkey
  · rcases List.prefix_concat_iff.mp hkey with heq | hkey
    · exact absurd (heq ▸ List.mem_append_right _ List.mem_cons_self) hc
    · exact hkey
  · exact absurd (hkey.mem (List.mem_append_right _ List.mem_cons_self)) hc

section Key

variable {β : Type} {f : List Char → Option β} {key : List Char}
  (hf : ∀ cs, ¬ key <+: cs → f cs = none)
include hf

/-- No key starts where no quote is. -/
theorem leftmost?_of_no_quote (hquote : key.head? = some '"') {before : List Char}
    (h : '"' ∉ before) (rest : List Char) : leftmost? f (before ++ rest) = leftmost? f rest := by
  obtain ⟨tail, rfl⟩ := List.head?_eq_some_iff.mp hquote
  refine leftmost?_append fun c more hsuffix => hf _ fun hprefix => h ?_
  obtain ⟨rfl, -⟩ := List.cons_prefix_cons.mp hprefix
  exact hsuffix.mem List.mem_cons_self

/-- In a text without the key nothing is found, nor at a character behind it that is no part of the
key. -/
theorem leftmost?_of_no_key (hne : key ≠ []) {before : List Char} (h : ¬ key <:+: before) {c : Char}
    (hc : c ∉ key) (rest : List Char) : leftmost? f (before ++ c :: rest) = leftmost? f rest := by
  have hbefore : leftmost? f (before ++ c :: rest) = leftmost? f (c :: rest) :=
    leftmost?_append fun _ _ hsuffix => hf _ fun hprefix =>
      h ((prefix_of_not_mem hc hprefix).isInfix.trans hsuffix.isInfix)
  have hnone : f (c :: rest) = none := hf _ fun hprefix =>
    hne (List.prefix_nil.mp (prefix_of_not_mem hc (show key <+: [] ++ c :: rest from hprefix)))
  rw [hbefore, leftmost?_cons_of_none hnone]

end Key

end Reply

/-! ## Numerals as scores -/

namespace Json.Numeral

variable (n : Numeral)

theorem quote_not_mem_chars : '"' ∉ n.chars := fun h =>
  (n.mem_chars h).elim (by decide) (by decide)

theorem skipBlanks_chars (tail : List Char) :
    Text.skipBlanks (n.chars ++ tail) = n.chars ++ tail := by
  obtain ⟨c, rest, hd, hc⟩ := n.chars_head
  rw [hd]
  refine Text.skipBlanks_cons ?_ (rest ++ tail)
  rcases hc with rfl | hc
  · rfl
  · exact Text.not_isBlank_of_isDigit hc

/-- A score with a minus is none. -/
theorem score?_of_negative (h : n.negative = true) (tail : List Char) :
    Reply.score? (n.chars ++ tail) = none := by
  unfold chars
  rw [h]
  rfl

/-- Of a score without a minus the exponent is not read. -/
theorem score?_of_not_negative (h : n.negative = false) (tail : List Char) :
    Reply.score? (n.chars ++ '}' :: tail) = some n.plain.literal := by
  have hpower : Decimal.NoDigit (powerChars n.power ++ '}' :: tail) :=
    noDigit_append n.noDigit_powerChars (noDigit_cons rfl tail)
  have hrest : Decimal.NoDigit (fractionChars n.fraction
      ++ (powerChars n.power ++ '}' :: tail)) := by
    rw [← List.append_assoc]
    exact noDigit_append n.noDigit_fractionChars (noDigit_cons rfl tail)
  have hchars : n.chars ++ '}' :: tail = n.whole.chars ++ (fractionChars n.fraction
      ++ (powerChars n.power ++ '}' :: tail)) := by
    unfold chars unsignedChars
    rw [h, if_neg Bool.false_ne_true, List.append_assoc, List.append_assoc]
  have hwhole : n.whole.chars.isEmpty = false := by simpa using n.whole.nonempty
  unfold Reply.score? plain literal
  rw [hchars, n.whole.spanDigits_append hrest, h]
  dsimp only
  rw [hwhole, Bool.false_and, if_neg Bool.false_ne_true]
  cases n.fraction with
  | none =>
    cases n.power with
    | none => rfl
    | some p =>
      obtain ⟨_, _, _, rfl | rfl⟩ := p <;> rfl
  | some d =>
    show some (Decimal.Literal.mk _ _ (Decimal.spanDigits (d.chars ++ _)).1 _) = _
    rw [d.spanDigits_append hpower]
    rfl

end Json.Numeral

/-! ## The whole reply as JSON -/

namespace Json

theorem get?_of_scalar? {cs rest : List Char} {v : Json} (h : scalar? cs = some (v, rest))
    (key : String) : v.get? key = none := by
  unfold scalar? at h
  split at h
  · cases h
    rfl
  · cases h
    rfl
  · cases h
    rfl
  · obtain ⟨r, -, hr⟩ := Option.map_eq_some_iff.mp h
    cases hr
    rfl
  all_goals
    simp only [unsigned?, Option.bind_eq_bind, Option.bind_eq_some_iff] at h
    obtain ⟨_, -, _, -, _, -, n, -, hr⟩ := h
    cases hr
    rfl

/-- What does not start with a brace is no object. -/
theorem get?_of_value? {depth : Nat} {c : Char} {more rest : List Char} {v : Json}
    (hc : c ≠ '{') (h : value? depth (c :: more) = some (v, rest)) (key : String) :
    v.get? key = none := by
  cases depth with
  | zero => exact get?_of_scalar? h key
  | succ depth =>
    unfold value? at h
    split at h
    · split at h
      · cases h
        rfl
      · obtain ⟨r, -, hr⟩ := Option.map_eq_some_iff.mp h
        cases hr
        rfl
    · rename_i heq
      exact absurd (List.cons.inj heq).1 hc
    · exact get?_of_scalar? h key

end Json

namespace Reply

/-- An object with a score, and what follows it. -/
def scored (n : Json.Numeral) (tail : List Char) : List Char :=
  '{' :: (scoreKey ++ ':' :: ' ' :: (n.chars ++ '}' :: tail))

/-- The reply that is an object with a score and nothing else. -/
def bare (n : Json.Numeral) : String := String.ofList (scored n [])

theorem toList_wrapped (n : Json.Numeral) (p q : String) :
    (p ++ bare n ++ q).toList = p.toList ++ scored n q.toList := by
  unfold bare scored
  rw [String.toList_append, String.toList_append, String.toList_ofList]
  simp

variable {n : Json.Numeral} {m : Json.Number}

/-- An object with a score is read off the front of a text. -/
theorem value?_scored (h : n.number? = some m) (tail : List Char) :
    Json.value? Json.depthLimit (scored n tail)
      = some (.object [("bid_score", .number m)], tail) := by
  have hscore : Json.SpellsItem (Json.Spells 126) ([' '] ++ (n.chars ++ [])) (.number m) :=
    .mk rfl (.of_scalar (.number h)) rfl
  have hobject : Json.SpellsContainer (Json.Spells 126)
      ('{' :: ((Json.renderText "bid_score").toList ++ ':' :: ' ' :: n.chars ++ ['}']))
      (.object [("bid_score", .number m)]) := by
    rw [List.append_nil] at hscore
    exact .object (.last (.of_item "bid_score" hscore))
  have hkey : (Json.renderText "bid_score").toList = scoreKey := by decide
  have hread := hobject.value? (Json.readsValue_value? 126) tail
  rw [hkey] at hread
  unfold scored Json.depthLimit
  simpa using hread

/-- A text that starts with an object with a score, and goes on, is no JSON. -/
theorem ofJson?_scored (h : n.number? = some m) (tail : List Char) :
    ofJson? (String.ofList (scored n tail))
      = if (Json.skipSpace tail).isEmpty then some ⟨m.toFloat, none⟩ else none := by
  have hspace : Json.skipSpace (scored n tail) = scored n tail := Json.skipSpace_cons rfl _
  unfold ofJson? Json.parse? Json.parseWithin?
  rw [String.toList_ofList, hspace, value?_scored h tail]
  simp only [Option.bind_eq_bind, Option.bind_some]
  split <;> rfl

/-- A text that starts with neither a blank nor a brace says nothing as JSON. -/
theorem ofJson?_of_no_brace {c : Char} (hblank : Text.isBlank c = false) (hbrace : c ≠ '{')
    (rest : List Char) : ofJson? (String.ofList (c :: rest)) = none := by
  have hspace : Json.skipSpace (c :: rest) = c :: rest := by
    refine Json.skipSpace_cons ?_ rest
    cases hc : Json.isSpace c with
    | false => rfl
    | true => exact nomatch hblank.symm.trans (Text.isBlank_of_isSpace hc)
  unfold ofJson? Json.parse? Json.parseWithin?
  rw [String.toList_ofList, hspace]
  cases hread : Json.value? Json.depthLimit (c :: rest) with
  | none => rfl
  | some r =>
    simp only [Option.bind_eq_bind, Option.bind_some]
    split
    · rw [Option.bind_some, Json.get?_of_value? hbrace hread]
      rfl
    · rfl

/-- Behind prose without a brace a reply says nothing as JSON. -/
theorem ofJson?_of_prose {before : List Char} (h : before.all Text.isBlank = false)
    (hbrace : '{' ∉ before) (rest : List Char) :
    ofJson? (String.ofList (Text.trimChars (before ++ rest))) = none := by
  obtain ⟨blanks, c, after, rfl, hblanks, hc⟩ := Text.exists_first_not_isBlank h
  have hne : c ≠ '{' := by
    rintro rfl
    exact hbrace (List.mem_append_right _ List.mem_cons_self)
  rw [List.append_assoc, List.cons_append, Text.trimChars_append hblanks hc]
  exact ofJson?_of_no_brace hc hne _

/-- With anything but blanks around it, an object with a score is no JSON. -/
theorem ofJson?_wrapped (h : n.number? = some m) {p : String} (hbrace : '{' ∉ p.toList)
    (q : String) :
    ofJson? (Text.trim (p ++ bare n ++ q))
      = if p.toList.all Text.isBlank && q.toList.all Text.isBlank then some ⟨m.toFloat, none⟩
        else none := by
  unfold Text.trim
  rw [toList_wrapped]
  cases hp : p.toList.all Text.isBlank with
  | false => exact ofJson?_of_prose hp hbrace _
  | true =>
    have htrim : Text.trimChars (p.toList ++ scored n q.toList)
        = scored n (Text.dropBack q.toList) := by
      unfold scored
      rw [Text.trimChars_append hp rfl]
      have hback := Text.dropBack_append_cons (c := '}') rfl
        (scoreKey ++ ':' :: ' ' :: n.chars) q.toList
      simp only [List.append_assoc, List.cons_append] at hback
      rw [hback]
    rw [htrim, ofJson?_scored h]
    cases hq : q.toList.all Text.isBlank with
    | true =>
      rw [Text.dropBack_eq_nil_iff.mpr hq]
      rfl
    | false =>
      obtain ⟨c, hmem, hc⟩ := Text.exists_mem_dropBack hq
      refine if_neg fun hempty => ?_
      have hspaces := List.dropWhile_eq_nil_iff.mp (List.isEmpty_iff.mp hempty)
      exact nomatch hc.symm.trans (Text.isBlank_of_isSpace (hspaces c hmem))

/-! ## The reply as prose -/

/-- The bid of a text that is no JSON is its leftmost score. -/
theorem bid_ofProse? (s : String) :
    (ofProse? s).map Reply.bid = (leftmost? scoreAt? s.toList).map Decimal.Literal.toFloat := by
  unfold ofProse?
  cases leftmost? scoreAt? s.toList <;> rfl

/-- The leftmost score of a text around an object with a score: that of the object, but without its
exponent and only if it is not negative, and otherwise the leftmost one behind it. -/
theorem leftmost?_wrapped (n : Json.Numeral) {before : List Char}
    (hkey : ¬ scoreKey <:+: before) (after : List Char) :
    leftmost? scoreAt? (before ++ scored n after)
      = if n.negative then leftmost? scoreAt? after else some n.plain.literal := by
  have hscore : scoreAt? (scoreKey ++ ':' :: ' ' :: (n.chars ++ '}' :: after))
      = score? (n.chars ++ '}' :: after) := by
    rw [scoreAt?_key]
    exact congrArg score? (n.skipBlanks_chars _)
  rw [show before ++ scored n after = before ++ '{' :: _ from rfl,
    leftmost?_of_no_key (fun _ => scoreAt?_eq_none) (by decide) hkey (by decide)]
  cases hnegative : n.negative with
  | false =>
    rw [n.score?_of_not_negative hnegative] at hscore
    exact leftmost?_cons_of_some hscore
  | true =>
    rw [n.score?_of_negative hnegative] at hscore
    -- no score behind the key: the search goes on in the object, over its second quote and no other
    have hvalue : '"' ∉ ':' :: ' ' :: (n.chars ++ ['}']) := by
      simpa using n.quote_not_mem_chars
    calc leftmost? scoreAt? (scoreKey ++ ':' :: ' ' :: (n.chars ++ '}' :: after))
        = leftmost? scoreAt? ("bid_score".toList
            ++ '"' :: ':' :: ' ' :: (n.chars ++ '}' :: after)) := leftmost?_cons_of_none hscore
      _ = leftmost? scoreAt? ('"' :: ':' :: ' ' :: (n.chars ++ '}' :: after)) :=
          leftmost?_of_no_quote (fun _ => scoreAt?_eq_none) rfl (by decide) _
      _ = leftmost? scoreAt? (':' :: ' ' :: (n.chars ++ '}' :: after)) :=
          leftmost?_cons_of_none rfl
      _ = leftmost? scoreAt? (':' :: ' ' :: (n.chars ++ ['}']) ++ after) := by simp
      _ = leftmost? scoreAt? after :=
          leftmost?_of_no_quote (fun _ => scoreAt?_eq_none) rfl hvalue _

/-! ## Bids -/

/-- Alone, a score is read as the double nearest to it. -/
theorem parse?_bare (h : n.ReadExactly) : parse? (bare n) = some ⟨n.nearest, none⟩ := by
  obtain ⟨m, hm, hnearest⟩ := h
  have hread := ofJson?_wrapped hm (p := "") List.not_mem_nil ""
  rw [String.empty_append, String.append_empty] at hread
  unfold parse?
  rw [hread, hnearest]
  rfl

/-- In a text, a score is read as JSON if nothing but blanks is around it, and otherwise as it is
found by the search. -/
theorem bid_wrapped (h : n.ReadExactly) {p : String} (hbrace : '{' ∉ p.toList)
    (hkey : ¬ scoreKey <:+: p.toList) (q : String) :
    (parse? (p ++ bare n ++ q)).map Reply.bid
      = if p.toList.all Text.isBlank && q.toList.all Text.isBlank then some n.nearest
        else if n.negative then (leftmost? scoreAt? q.toList).map Decimal.Literal.toFloat
        else some n.plain.nearest := by
  obtain ⟨m, hm, hnearest⟩ := h
  unfold parse?
  rw [ofJson?_wrapped hm hbrace, hnearest]
  cases p.toList.all Text.isBlank && q.toList.all Text.isBlank with
  | true => rfl
  | false =>
    show (ofProse? _).map Reply.bid = _
    rw [bid_ofProse?, toList_wrapped, leftmost?_wrapped n hkey]
    cases n.negative <;> rfl

/-- What prose does to the bid of an answer. Alone, an object with a score bids the value of the
score, which is the double nearest to it; so does one with nothing but blanks around it. Behind
prose that holds neither a brace nor the key of a score, or before any text at all, a score without
a minus bids its value without its exponent, and one with a minus is passed over: the leftmost score
behind it is bid, if there is one, and nothing otherwise. So whatever is around it, a score
without minus and exponent bids what it bids alone. -/
theorem bid_in_prose (n : Json.Numeral) (hread : n.ReadExactly) (p q : String)
    (hbrace : '{' ∉ p.toList) (hkey : ¬ scoreKey <:+: p.toList) :
    parse? (bare n) = some ⟨n.nearest, none⟩ ∧
    (parse? (p ++ bare n ++ q)).map Reply.bid
      = (if p.toList.all Text.isBlank && q.toList.all Text.isBlank then some n.nearest
        else if n.negative then (leftmost? scoreAt? q.toList).map Decimal.Literal.toFloat
        else some n.plain.nearest) ∧
    (n.negative = false → n.power = none →
      (parse? (p ++ bare n ++ q)).map Reply.bid = (parse? (bare n)).map Reply.bid) := by
  have hbare := parse?_bare hread
  have hwrapped := bid_wrapped hread hbrace hkey q
  refine ⟨hbare, hwrapped, fun hnegative hpower => ?_⟩
  have hplain : n.plain = n := by
    unfold Json.Numeral.plain
    rw [← hpower]
  rw [hwrapped, hbare, hnegative, hplain]
  exact ite_self _

/-- The score `0.35`. -/
def low : Json.Numeral where
  negative := false
  whole := ⟨['0'], by decide, List.all_eq_true.mp rfl⟩
  fraction := some ⟨['3', '5'], by decide, List.all_eq_true.mp rfl⟩
  power := none
  leading := .inl rfl

theorem bid_in_prose_low :
    low.ReadExactly ∧ '{' ∉ "Sure! ".toList ∧ ¬ scoreKey <:+: "Sure! ".toList ∧
      (parse? ("Sure! " ++ bare low ++ " Anything else?")).map Reply.bid = some 0.35 := by
  have hread : low.ReadExactly := ⟨.double 0.35, by decide +kernel, by decide +kernel⟩
  have hbrace : '{' ∉ "Sure! ".toList := by decide
  have hkey : ¬ scoreKey <:+: "Sure! ".toList := by decide
  obtain ⟨hbare, -, hsame⟩ := bid_in_prose low hread "Sure! " " Anything else?" hbrace hkey
  refine ⟨hread, hbrace, hkey, ?_⟩
  rw [hsame rfl rfl, hbare, show low.nearest = 0.35 by decide +kernel]
  rfl

/-- The score `5e-1`. -/
def half : Json.Numeral where
  negative := false
  whole := ⟨['5'], by decide, List.all_eq_true.mp rfl⟩
  fraction := none
  power := some ⟨'e', some true, ⟨['1'], by decide, List.all_eq_true.mp rfl⟩, .inl rfl⟩
  leading := .inr (by decide)

/-- Prose makes a bid of one half a bid of five. -/
theorem bid_in_prose_half :
    half.ReadExactly ∧ '{' ∉ "Answer: ".toList ∧ ¬ scoreKey <:+: "Answer: ".toList ∧
      bare half = "\x7b\"bid_score\": 5e-1\x7d" ∧
      (parse? (bare half)).map Reply.bid = some 0.5 ∧
      (parse? ("Answer: " ++ bare half ++ "")).map Reply.bid = some 5 := by
  have hread : half.ReadExactly := ⟨.double 0.5, by decide +kernel, by decide +kernel⟩
  have hbrace : '{' ∉ "Answer: ".toList := by decide
  have hkey : ¬ scoreKey <:+: "Answer: ".toList := by decide
  refine ⟨hread, hbrace, hkey, by decide, ?_, ?_⟩
  · rw [parse?_bare hread, show half.nearest = 0.5 by decide +kernel]
    rfl
  · rw [bid_wrapped hread hbrace hkey, if_neg (by decide), if_neg (by decide),
      show half.plain.nearest = 5 by decide +kernel]

end Reply

end Placement
