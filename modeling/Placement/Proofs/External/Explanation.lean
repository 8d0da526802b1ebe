import Placement.Proofs.External.Leftmost
import Placement.Proofs.Json.Grammar
import Placement.Proofs.Json.Line
/-
  An explained answer in prose: an object of a score and its reasoning (`explanation`), with a
  prefix and a suffix around it.

  `explanation_in_prose`: the score and the reasoning are found as they were written, for every
  reasoning, with quotes, backslashes, line breaks or the keys themselves in it. GIVEN that the
  score is digits with at most one point (`IsScore`), that the prefix has no opening brace and
  neither key in it, and that the reader of JSON rounds the score correctly, which only counts where
  the whole reply is JSON after all.

  `isBody_flatMap`: an encoded string is a body whose escapes are whole pairs, so the scanner stops
  at the quote that ends it. `unescape_flatMap`: the body is read as the string again.
-/
namespace Placement

namespace Reply

open Double (Denotes rounded)

/-- The key of the reasoning, in its quotes. -/
def reasoningKey : List Char := "\"reasoning\"".toList

/-- An object of a score and its reasoning. -/
def explanation (d : List Char) (s : String) : String :=
  "\x7b\"bid_score\": " ++ String.ofList d ++ ", \"reasoning\": " ++ Json.renderText s ++ "\x7d"

/-- The member of the reasoning behind a score, and what follows it. -/
def reasoned (s : String) (tail : List Char) : List Char :=
  ' ' :: (reasoningKey ++ ':' :: ' ' :: ((Json.renderText s).toList ++ '}' :: tail))

/-- An object of a score and its reasoning, and what follows it. -/
def explained (d : List Char) (s : String) (tail : List Char) : List Char :=
  '{' :: (scoreKey ++ ':' :: ' ' :: (d ++ ',' :: reasoned s tail))

theorem toList_explanation (p : String) (d : List Char) (s q : String) :
    (p ++ explanation d s ++ q).toList = p.toList ++ explained d s q.toList := by
  unfold explanation explained reasoned scoreKey reasoningKey
  simp

/-! ## The score -/

theorem IsScore.mem {d : List Char} (h : IsScore d) {c : Char} (hc : c ∈ d) :
    c.isDigit = true ∨ c = '.' := by
  obtain ⟨whole, point, digits, rfl, hwhole, hpoint, hdigits, -⟩ := h
  rw [List.mem_append, List.mem_append] at hc
  rcases hc with (hc | hc) | hc
  · exact .inl (hwhole c hc)
  · rcases hpoint with rfl | rfl
    · exact absurd hc List.not_mem_nil
    · exact .inr (List.mem_singleton.mp hc)
  · exact .inl (hdigits c hc)

theorem IsScore.not_mem {d : List Char} (h : IsScore d) {c : Char} (hdigit : c.isDigit = false)
    (hpoint : c ≠ '.') : c ∉ d := fun hc =>
  (h.mem hc).elim (fun hc => nomatch hdigit.symm.trans hc) hpoint

theorem IsScore.isSpace_eq_false {d : List Char} (h : IsScore d) {c : Char} (hc : c ∈ d) :
    Json.isSpace c = false := by
  rcases h.mem hc with hdigit | rfl
  · refine Bool.eq_false_iff.mpr fun hspace => ?_
    exact nomatch (Text.isBlank_of_isSpace hspace).symm.trans (Text.not_isBlank_of_isDigit hdigit)
  · rfl

/-- A score before a comma is read whole. -/
theorem score?_comma {d : List Char} (h : IsScore d) (rest : List Char) :
    ∃ l, score? (d ++ ',' :: rest) = some l ∧ Denotes l.toFloat (rounded (worth d)) := by
  have hfront : d <+: d ++ ',' :: rest := List.prefix_append _ _
  cases hscan : score? (d ++ ',' :: rest) with
  | none => exact absurd hfront ((score?_eq_none _).mp hscan d h)
  | some l =>
    obtain ⟨d', hd', hfront', hlongest, hworth⟩ := score?_eq_some hscan
    have hshort := prefix_of_not_mem (hd'.not_mem rfl (by decide)) hfront'
    obtain rfl := hshort.eq_of_length_le (hlongest d h hfront)
    exact ⟨l, rfl, hworth⟩

/-! ## The reasoning -/

theorem reasoningAt?_eq_none {cs : List Char} (h : ¬ reasoningKey <+: cs) :
    reasoningAt? cs = none := by
  unfold reasoningAt?
  rw [afterKey?_eq_none "reasoning" h]
  rfl

/-- A character is written as itself or as escapes that are whole. -/
theorem isBody_escaped (c : Char) {b : List Char} (h : IsBody b) :
    IsBody (Json.escaped c ++ b) := by
  have hhex : ∀ n < 16, n.digitChar ≠ '"' ∧ n.digitChar ≠ '\\' := by decide
  unfold Json.escaped
  split_ifs with hquote hslash
  · exact .escape (by decide) h
  · exact .escape (by decide) h
  · exact .escape (by decide) h
  · exact .escape (by decide) h
  · exact .escape (by decide) h
  · exact .escape (by decide) h
  · exact .escape (by decide) h
  · have hhigh := hhex (c.toNat / 16 % 16) (Nat.mod_lt _ (by decide))
    have hlow := hhex (c.toNat % 16) (Nat.mod_lt _ (by decide))
    exact .escape (by decide) (.plain (by decide) (by decide) (.plain (by decide) (by decide)
      (.plain hhigh.1 hhigh.2 (.plain hlow.1 hlow.2 h))))
  · exact .plain hquote hslash h

theorem isBody_flatMap (cs : List Char) : IsBody (cs.flatMap Json.escaped) := by
  induction cs with
  | nil => exact .nil
  | cons c cs ih => exact isBody_escaped c ih

/-- A string is read back from what it is written as. -/
theorem unescape_flatMap (s : String) : unescape (s.toList.flatMap Json.escaped) = s :=
  (unescape_spec _).1 s (Json.isContent_flatMap s.toList)

/-- At its key the reasoning is found as it is written. -/
theorem reasoningAt?_reasoned (s : String) (tail : List Char) :
    reasoningAt? (reasoningKey ++ ':' :: ' ' :: ((Json.renderText s).toList ++ '}' :: tail))
      = some (s.toList.flatMap Json.escaped) := by
  have htext : (Json.renderText s).toList ++ '}' :: tail
      = quoted (s.toList.flatMap Json.escaped) ++ '}' :: tail := by
    unfold Json.renderText quoted
    rw [String.toList_ofList]
    rfl
  rw [htext]
  exact reasoningAt?_eq_some_iff.mpr ⟨isBody_flatMap _, [], [' '], '}' :: tail, rfl, rfl, rfl⟩

/-! ## The reply as prose -/

theorem leftmost?_scoreAt?_explained {p d : List Char} (hkey : ¬ scoreKey <:+: p) (hd : IsScore d)
    (s : String) (tail : List Char) :
    ∃ l, leftmost? scoreAt? (p ++ explained d s tail) = some l ∧
      Denotes l.toFloat (rounded (worth d)) := by
  obtain ⟨l, hl, hworth⟩ := score?_comma hd (reasoned s tail)
  obtain ⟨c, v, hcons, hblank⟩ := hd.head
  have hscore : scoreAt? (scoreKey ++ ':' :: ' ' :: (d ++ ',' :: reasoned s tail)) = some l := by
    rw [scoreAt?_key, ← hl, hcons]
    exact congrArg score? (Text.skipBlanks_cons hblank _)
  refine ⟨l, ?_, hworth⟩
  calc leftmost? scoreAt? (p ++ explained d s tail)
      = leftmost? scoreAt? (scoreKey ++ ':' :: ' ' :: (d ++ ',' :: reasoned s tail)) :=
        leftmost?_of_no_key (fun _ => scoreAt?_eq_none) (by decide) hkey (by decide) _
    _ = some l := leftmost?_cons_of_some hscore

theorem leftmost?_reasoningAt?_explained {p d : List Char} (hkey : ¬ reasoningKey <:+: p)
    (hd : IsScore d) (s : String) (tail : List Char) :
    leftmost? reasoningAt? (p ++ explained d s tail) = some (s.toList.flatMap Json.escaped) := by
  have hnone : ∀ cs, ¬ reasoningKey <+: cs → reasoningAt? cs = none := fun _ =>
    reasoningAt?_eq_none
  -- the first member holds no letter `g`
  have hmember : ¬ reasoningKey <:+: scoreKey ++ ':' :: ' ' :: (d ++ [',']) := by
    intro h
    have hscore : 'g' ∉ scoreKey := by decide
    have hd' : 'g' ∉ d := hd.not_mem rfl (by decide)
    have hg : 'g' ∈ scoreKey ++ ':' :: ' ' :: (d ++ [',']) := h.mem (by decide)
    simp [hscore, hd'] at hg
  calc leftmost? reasoningAt? (p ++ explained d s tail)
      = leftmost? reasoningAt? (scoreKey ++ ':' :: ' ' :: (d ++ ',' :: reasoned s tail)) :=
        leftmost?_of_no_key hnone (by decide) hkey (by decide) _
    _ = leftmost? reasoningAt? (scoreKey ++ ':' :: ' ' :: (d ++ [',']) ++ reasoned s tail) := by
        simp
    _ = leftmost? reasoningAt?
          (reasoningKey ++ ':' :: ' ' :: ((Json.renderText s).toList ++ '}' :: tail)) :=
        leftmost?_of_no_key hnone (by decide) hmember (by decide) _
    _ = some (s.toList.flatMap Json.escaped) :=
        leftmost?_cons_of_some (reasoningAt?_reasoned s tail)

/-- As prose, an explained answer says its score and its reasoning. -/
theorem ofProse?_explanation {p : String} {d : List Char} (hd : IsScore d)
    (hscore : ¬ scoreKey <:+: p.toList) (hreasoning : ¬ reasoningKey <:+: p.toList) (s q : String) :
    ∃ r, ofProse? (p ++ explanation d s ++ q) = some r ∧ Denotes r.bid (rounded (worth d)) ∧
      r.reasoning = some s := by
  obtain ⟨l, hl, hworth⟩ := leftmost?_scoreAt?_explained hscore hd s q.toList
  refine ⟨⟨l.toFloat, some s⟩, ?_, hworth, rfl⟩
  unfold ofProse?
  rw [toList_explanation, hl, leftmost?_reasoningAt?_explained hreasoning hd, Option.map_some,
    unescape_flatMap]
  rfl

/-! ## The reply as JSON -/

/-- A score that is read as a value of a member is a numeral. -/
theorem value?_score {n : ℕ} {d more after : List Char} {v : Json} (hd : IsScore d)
    (h : Json.value? n (d ++ ',' :: more) = some (v, after))
    (hnext : Json.EndsEntry '}' (Json.skipSpace after)) :
    ∃ m, v = .number m ∧ Json.scalar? d = some (.number m, []) ∧ after = ',' :: more := by
  obtain ⟨text, htext, hsplit⟩ := (Json.readsValue_value? n).sound h
  obtain ⟨c, rest, hcons, -⟩ := hd.head
  have hhead : ∀ k others, text = k :: others → k.isDigit = true ∨ k = '.' := by
    rintro k others rfl
    rw [hcons, List.cons_append, List.cons_append] at hsplit
    exact hd.mem (hcons ▸ (List.cons.inj hsplit).1 ▸ List.mem_cons_self)
  rcases htext.scalar_or_bracket with hscalar | ⟨k, others, htext, hk⟩
  · cases hscalar with
    | null => exact absurd (hhead _ _ rfl) (by decide)
    | true => exact absurd (hhead _ _ rfl) (by decide)
    | false => exact absurd (hhead _ _ rfl) (by decide)
    | text => exact absurd (hhead _ _ rfl) (by decide)
    | @number numeral m hm =>
      have hcomma : ',' ∉ numeral.chars := fun hc =>
        (numeral.mem_chars hc).elim (by decide) (by decide)
      obtain ⟨behind, rfl⟩ := prefix_of_not_mem hcomma ⟨after, hsplit.symm⟩
      rw [List.append_assoc] at hsplit
      obtain rfl := List.append_cancel_left hsplit
      -- a digit or a point behind the numeral would have to end the member
      cases behind with
      | nil =>
        rw [List.append_nil]
        exact ⟨m, rfl, numeral.scalar?_chars_self hm, rfl⟩
      | cons k behind =>
        have hk : k ∈ numeral.chars ++ k :: behind :=
          List.mem_append_right _ List.mem_cons_self
        rw [List.cons_append, Json.skipSpace_cons (hd.isSpace_eq_false hk)] at hnext
        obtain ⟨_, heq | heq⟩ := hnext
        · obtain rfl := (List.cons.inj heq).1
          exact absurd hk (hd.not_mem rfl (by decide))
        · obtain rfl := (List.cons.inj heq).1
          exact absurd hk (hd.not_mem rfl (by decide))
  · rcases hhead k others htext with hdigit | hpoint
    · rcases hk with rfl | rfl <;> exact nomatch hdigit
    · rcases hk with rfl | rfl <;> exact nomatch hpoint

/-- The member of the reasoning is read up to the brace behind it. -/
theorem members?_reasoned {n fuel : ℕ} {s : String} {tail rest : List Char}
    {members : List (String × Json)}
    (h : Json.members? (Json.value? n) fuel (reasoned s tail) = some (members, rest)) :
    members = [("reasoning", .text s)] := by
  obtain ⟨fewer, m, after, hm, hon⟩ := (Json.isRow_members? _).exists_entry h
  have hkey : reasoningKey = (Json.renderText "reasoning").toList := by decide
  have hskip : Json.skipSpace (reasoned s tail) = Json.skipSpace (reasoningKey
      ++ ':' :: ' ' :: ((Json.renderText s).toList ++ '}' :: tail)) :=
    List.dropWhile_cons_of_pos rfl
  rw [hkey] at hskip
  obtain ⟨v, rfl, hv⟩ := (hm.of_skipSpace hskip).of_key
  have hread : Json.value? n ((Json.renderText s).toList ++ '}' :: tail)
      = some (.text s, '}' :: tail) :=
    Json.value?_of_scalar? (Json.isReadAs_text s _
      (Json.endsNumber_cons (.inr (.inr (.inl rfl))) tail)) n
  have hspace : Json.skipSpace (' ' :: ((Json.renderText s).toList ++ '}' :: tail))
      = (Json.renderText s).toList ++ '}' :: tail := by
    rw [Json.renderText_append]
    rfl
  unfold Json.ItemAt at hv
  rw [hspace, hread] at hv
  cases hv
  cases hon
  rfl

/-- An explained answer that is read as JSON is an object of its score and its reasoning. -/
theorem value?_explained {d : List Char} (hd : IsScore d) {s : String} {tail rest : List Char}
    {v : Json} (h : Json.value? Json.depthLimit (explained d s tail) = some (v, rest)) :
    ∃ m, Json.scalar? d = some (.number m, []) ∧
      v = .object (Json.Members.gather [("bid_score", .number m), ("reasoning", .text s)]) := by
  have hnext : ∀ more, Json.skipSpace (scoreKey ++ ':' :: ' ' :: (d ++ ',' :: reasoned s tail))
      ≠ '}' :: more := fun _ => nofun
  obtain ⟨members, hmembers, rfl⟩ := Json.exists_members?_of_value? h hnext
  obtain ⟨fewer, m, after, hm, hon⟩ := (Json.isRow_members? _).exists_entry hmembers
  have hkey : scoreKey = (Json.renderText "bid_score").toList := by decide
  rw [hkey] at hm
  obtain ⟨v, rfl, hv⟩ := hm.of_key
  have hspace : Json.skipSpace (' ' :: (d ++ ',' :: reasoned s tail))
      = d ++ ',' :: reasoned s tail := by
    obtain ⟨c, more, hcons, -⟩ := hd.head
    have hc := hd.isSpace_eq_false (hcons ▸ List.mem_cons_self)
    rw [hcons]
    exact Json.skipSpace_cons hc _
  unfold Json.ItemAt at hv
  rw [hspace] at hv
  obtain ⟨number, rfl, hscalar, rfl⟩ := value?_score hd hv hon.endsEntry
  have hcomma : Json.skipSpace (',' :: reasoned s tail) = ',' :: reasoned s tail :=
    Json.skipSpace_cons rfl _
  rw [hcomma] at hon
  cases hon with
  | comma hmore =>
    rw [members?_reasoned hmore]
    exact ⟨number, hscalar, rfl⟩

/-- As JSON, an explained answer says its score and its reasoning, if it says anything. -/
theorem ofJson?_explained {d : List Char} (hd : IsScore d) {s : String} {tail : List Char}
    {r : Reply} (h : ofJson? (String.ofList (explained d s tail)) = some r) :
    ∃ m, Json.scalar? d = some (.number m, []) ∧ r = ⟨m.toFloat, some s⟩ := by
  have hspace : Json.skipSpace (explained d s tail) = explained d s tail :=
    Json.skipSpace_cons rfl _
  unfold ofJson? Json.parse? Json.parseWithin? at h
  rw [String.toList_ofList, hspace] at h
  obtain ⟨v, hv, h⟩ := Option.bind_eq_some_iff.mp h
  obtain ⟨⟨v', rest⟩, hread, hv⟩ := Option.bind_eq_some_iff.mp hv
  dsimp only at hv
  split_ifs at hv
  cases hv
  obtain ⟨m, hscalar, rfl⟩ := value?_explained hd hread
  simp only [Json.get?, Json.Members.find?_gather, List.reverse_cons, List.reverse_nil,
    List.nil_append, List.cons_append, Json.Members.find?_cons, String.reduceEq, if_true, if_false,
    Option.bind_some, Json.toFloat?, Json.toText?, Option.bind_eq_bind, Option.some.injEq] at h
  exact ⟨m, hscalar, h.symm⟩

/-- Trimmed, a reply without prose before the answer is the answer and what follows it. -/
theorem trimChars_explained {before : List Char} (h : before.all Text.isBlank = true)
    (d : List Char) (s : String) (tail : List Char) :
    Text.trimChars (before ++ explained d s tail) = explained d s (Text.dropBack tail) := by
  have hback := Text.dropBack_append_cons (c := '}') rfl
    (scoreKey ++ ':' :: ' ' :: (d ++ ',' :: ' ' :: (reasoningKey ++ ':' :: ' '
      :: (Json.renderText s).toList))) tail
  simp only [List.append_assoc, List.cons_append] at hback
  unfold explained reasoned
  rw [Text.trimChars_append h rfl, hback]

/-! ## Any prose -/

/-- An explained answer comes through any prose. Behind text that holds neither a brace nor the key
of a score or of a reasoning, and before any text at all, an object of a score and its reasoning is
read as just these: the bid is the double nearest to the number that the score denotes, and the
reasoning is the string that was written, whatever is in it. That the reader of JSON rounds to the
nearest is needed for a reply that is JSON as a whole, and only of this one score. -/
theorem explanation_in_prose (p : String) (d : List Char) (s q : String) (hd : IsScore d)
    (hbrace : '{' ∉ p.toList) (hscore : ¬ scoreKey <:+: p.toList)
    (hreasoning : ¬ reasoningKey <:+: p.toList)
    (hround : ∀ m, Json.scalar? d = some (.number m, []) → Denotes m.toFloat (rounded (worth d))) :
    ∃ r, parse? (p ++ explanation d s ++ q) = some r ∧ Denotes r.bid (rounded (worth d)) ∧
      r.reasoning = some s := by
  unfold parse?
  cases hjson : ofJson? (Text.trim (p ++ explanation d s ++ q)) with
  | none => exact ofProse?_explanation hd hscore hreasoning s q
  | some r =>
    unfold Text.trim at hjson
    rw [toList_explanation] at hjson
    have hblank : p.toList.all Text.isBlank = true := by
      refine Bool.of_not_eq_false fun hprose => ?_
      rw [ofJson?_of_prose hprose hbrace] at hjson
      exact nomatch hjson
    rw [trimChars_explained hblank] at hjson
    obtain ⟨m, hm, rfl⟩ := ofJson?_explained hd hjson
    exact ⟨_, rfl, hround m hm, rfl⟩

/-- A reasoning that looks like an answer itself. -/
def tricky : String := "say \"bid_score\": 1, \"reasoning\": \"no\"\x7d\\\n"

theorem explanation_in_prose_tricky :
    (∃ r, parse? ("Sure! " ++ explanation ['0', '.', '5'] tricky ++ " Anything else?") = some r ∧
      Denotes r.bid (rounded (worth ['0', '.', '5'])) ∧ r.reasoning = some tricky) ∧
    ∃ r, parse? ("\n" ++ explanation ['0', '.', '5'] tricky ++ "\n") = some r ∧
      Denotes r.bid (rounded (worth ['0', '.', '5'])) ∧ r.reasoning = some tricky := by
  have hd : IsScore ['0', '.', '5'] :=
    ⟨['0'], ['.'], ['5'], rfl, List.all_eq_true.mp rfl, .inr rfl, List.all_eq_true.mp rfl,
      List.cons_ne_nil _ _⟩
  have hround : ∀ m, Json.scalar? ['0', '.', '5'] = some (.number m, []) →
      Denotes m.toFloat (rounded (worth ['0', '.', '5'])) := by
    intro m hm
    have hread : Json.scalar? ['0', '.', '5'] = some (.number (.double 0.5), []) := rfl
    have hhalf : Decimal.Literal.toFloat ⟨false, ['0'], ['5'], 0⟩ = 0.5 := by decide +kernel
    have hnearest : Denotes (Decimal.Literal.toFloat ⟨false, ['0'], ['5'], 0⟩)
        (rounded (worth ['0', '.', '5'])) :=
      denotes_worth (List.all_eq_true.mp rfl) (List.all_eq_true.mp rfl)
    rw [hread] at hm
    cases hm
    exact hhalf ▸ hnearest
  exact ⟨explanation_in_prose "Sure! " _ tricky " Anything else?" hd (by decide) (by decide)
      (by decide) hround,
    explanation_in_prose "\n" _ tricky "\n" hd (by decide) (by decide) (by decide) hround⟩

end Reply

end Placement
