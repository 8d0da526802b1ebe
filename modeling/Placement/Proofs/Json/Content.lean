import Placement.Proofs.Json.Scan
/-
  Strings as JSON spells them. `IsContent content s`: between the quotes `content` spells `s`. A
  character stands for itself, unless it is a quote, a backslash or a control character; every other
  one is an escape (`IsEscape`), which is a letter, the number of a character in four hexadecimal
  digits, or two such numbers that are a surrogate pair.

  `stringBody?_eq_some_iff`: the scanner reads exactly such a text up to the quote behind it.
-/
namespace Placement.Json

/-! ## The grammar -/

/-- A hexadecimal digit, in either case, and its value. -/
def IsHex (c : Char) (k : Nat) : Prop := k < 16 ∧ (c = k.digitChar ∨ c = k.digitChar.toUpper)

/-- Four hexadecimal digits, and the number that they denote. -/
inductive IsUnit : List Char → Nat → Prop
  | mk {a b c d : Char} {i j k l : Nat} : IsHex a i → IsHex b j → IsHex c k → IsHex d l →
      IsUnit [a, b, c, d] (((i * 16 + j) * 16 + k) * 16 + l)

/-- The escapes that are a letter, and what they stand for. -/
def letters : List (Char × Char) :=
  [('"', '"'), ('\\', '\\'), ('/', '/'), ('b', '\x08'), ('f', '\x0c'), ('n', '\n'), ('r', '\r'),
    ('t', '\t')]

/-- An escape behind its backslash, and the character it stands for. -/
inductive IsEscape : List Char → Char → Prop
  | letter {e c : Char} : (e, c) ∈ letters → IsEscape [e] c
  | numbered {unit : List Char} {n : Nat} : IsUnit unit n → n < 0xD800 ∨ 0xDFFF < n →
      IsEscape ('u' :: unit) (Char.ofNat n)
  | pair {high low : List Char} {m n : Nat} : IsUnit high m → IsUnit low n →
      0xD800 ≤ m ∧ m ≤ 0xDBFF → 0xDC00 ≤ n ∧ n ≤ 0xDFFF →
      IsEscape ('u' :: (high ++ '\\' :: 'u' :: low))
        (Char.ofNat (0x10000 + (m - 0xD800) * 0x400 + (n - 0xDC00)))

/-- What stands between the quotes of a string, and the string. -/
inductive IsContent : List Char → List Char → Prop
  | nil : IsContent [] []
  | plain {c : Char} {cs s : List Char} : c ≠ '"' → c ≠ '\\' → ¬ c.toNat < 0x20 → IsContent cs s →
      IsContent (c :: cs) (c :: s)
  | escape {e : List Char} {c : Char} {cs s : List Char} : IsEscape e c → IsContent cs s →
      IsContent ('\\' :: (e ++ cs)) (c :: s)

/-! ## Escapes -/

/-- A character between two others is one of those counted from the lower one. -/
theorem exists_offset {low high c : Char} (span : Nat) (h : low ≤ c ∧ c ≤ high)
    (hspan : high.toNat = low.toNat + span) :
    ∃ n ≤ span, c = Char.ofNat (low.toNat + n) ∧ c.toNat - low.toNat = n := by
  have hlow : low.toNat ≤ c.toNat := h.1
  have hhigh : c.toNat ≤ high.toNat := h.2
  refine ⟨c.toNat - low.toNat, by omega, ?_, rfl⟩
  rw [Nat.add_sub_cancel' hlow, Char.ofNat_toNat]

theorem hexValue?_eq_some_iff {c : Char} {k : Nat} : hexValue? c = some k ↔ IsHex c k := by
  constructor
  · intro h
    unfold hexValue? at h
    split_ifs at h with hdigit hlower hupper
    · obtain ⟨n, hn, hc, hvalue⟩ := exists_offset 9 hdigit rfl
      have hall : ∀ n ≤ 9, Char.ofNat ('0'.toNat + n) = n.digitChar := by decide
      rw [hvalue] at h
      obtain rfl := Option.some.inj h
      exact ⟨by omega, .inl (hc.trans (hall _ hn))⟩
    · obtain ⟨n, hn, hc, hvalue⟩ := exists_offset 5 hlower rfl
      have hall : ∀ n ≤ 5, Char.ofNat ('a'.toNat + n) = (n + 10).digitChar := by decide
      rw [hvalue] at h
      obtain rfl := Option.some.inj h
      exact ⟨by omega, .inl (hc.trans (hall _ hn))⟩
    · obtain ⟨n, hn, hc, hvalue⟩ := exists_offset 5 hupper rfl
      have hall : ∀ n ≤ 5, Char.ofNat ('A'.toNat + n) = (n + 10).digitChar.toUpper := by decide
      rw [hvalue] at h
      obtain rfl := Option.some.inj h
      exact ⟨by omega, .inr (hc.trans (hall _ hn))⟩
  · rintro ⟨hk, rfl | rfl⟩
    · have hall : ∀ k < 16, hexValue? k.digitChar = some k := by decide
      exact hall k hk
    · have hall : ∀ k < 16, hexValue? k.digitChar.toUpper = some k := by decide
      exact hall k hk

/-- Four hexadecimal digits are read as their number, and nothing else is. -/
theorem hexUnit?_eq_some_iff {cs rest : List Char} {n : Nat} :
    hexUnit? cs = some (n, rest) ↔ ∃ unit, IsUnit unit n ∧ cs = unit ++ rest := by
  constructor
  · intro h
    unfold hexUnit? at h
    split at h
    · rename_i a b c d more
      simp only [Option.bind_eq_bind, Option.bind_eq_some_iff, hexValue?_eq_some_iff] at h
      obtain ⟨i, hi, j, hj, k, hk, l, hl, heq⟩ := h
      cases heq
      exact ⟨[a, b, c, d], .mk hi hj hk hl, rfl⟩
    · cases h
  · rintro ⟨_, ⟨hi, hj, hk, hl⟩, rfl⟩
    simp only [List.cons_append, List.nil_append, hexUnit?, Option.bind_eq_bind,
      hexValue?_eq_some_iff.mpr hi, hexValue?_eq_some_iff.mpr hj, hexValue?_eq_some_iff.mpr hk,
      hexValue?_eq_some_iff.mpr hl, Option.bind_some]

/-- A number that is read is the number of a character, or a surrogate pair. -/
theorem numberedChar?_eq_some {cs rest : List Char} {c : Char}
    (h : numberedChar? cs = some (c, rest)) : ∃ e, IsEscape ('u' :: e) c ∧ cs = e ++ rest := by
  simp only [numberedChar?, Option.bind_eq_bind, Option.bind_eq_some_iff] at h
  obtain ⟨⟨m, more⟩, hm, h⟩ := h
  obtain ⟨high, hhigh, rfl⟩ := hexUnit?_eq_some_iff.mp hm
  dsimp only at h
  split_ifs at h with hsurrogate hlow
  · split at h
    · obtain ⟨⟨n, after⟩, hn, hpair⟩ := Option.bind_eq_some_iff.mp h
      obtain ⟨low, hlow, rfl⟩ := hexUnit?_eq_some_iff.mp hn
      dsimp only at hpair
      split_ifs at hpair with hrange
      obtain ⟨rfl, rfl⟩ := Prod.mk.inj (Option.some.inj hpair)
      exact ⟨_, .pair hhigh hlow hsurrogate hrange, by simp⟩
    · cases h
  · cases h
    exact ⟨high, .numbered hhigh (by omega), rfl⟩

/-- An escape is read as its character, and nothing else is. -/
theorem escape?_eq_some_iff {cs rest : List Char} {c : Char} :
    escape? cs = some (c, rest) ↔ ∃ e, IsEscape e c ∧ cs = e ++ rest := by
  constructor
  · intro h
    unfold escape? at h
    split at h
    case h_9 =>
      obtain ⟨e, he, rfl⟩ := numberedChar?_eq_some h
      exact ⟨'u' :: e, he, rfl⟩
    case h_10 => exact nomatch h
    all_goals
      cases h
      exact ⟨_, .letter (by decide), rfl⟩
  · rintro ⟨_, he, rfl⟩
    cases he with
    | letter h =>
      have hall : ∀ m ∈ letters, ∀ rest, escape? (m.1 :: rest) = some (m.2, rest) := by
        unfold letters
        simp [escape?]
      exact hall _ h rest
    | @numbered unit n hunit hn =>
      show numberedChar? (unit ++ rest) = _
      unfold numberedChar?
      rw [hexUnit?_eq_some_iff.mpr ⟨unit, hunit, rfl⟩, Option.bind_eq_bind, Option.bind_some]
      dsimp only
      rw [if_neg (by omega), if_neg (by omega)]
    | @pair high low m n hhigh hlow hm hn =>
      show numberedChar? ((high ++ '\\' :: 'u' :: low) ++ rest) = _
      unfold numberedChar?
      rw [List.append_assoc, hexUnit?_eq_some_iff.mpr ⟨high, hhigh, rfl⟩, Option.bind_eq_bind,
        Option.bind_some]
      dsimp only
      rw [if_pos hm]
      show ((hexUnit? (low ++ rest)).bind _) = _
      rw [hexUnit?_eq_some_iff.mpr ⟨low, hlow, rfl⟩, Option.bind_some, if_pos hn]

/-! ## Strings -/

/-- A string is read up to its quote. -/
theorem stringBody?_content {content s : List Char} (h : IsContent content s) (rest : List Char) :
    stringBody? (content ++ '"' :: rest) = some (s, rest) := by
  induction h with
  | nil => exact stringBody?_quote rest
  | plain hquote hslash hcontrol _ ih =>
    rw [List.cons_append, stringBody?_plain hquote hslash hcontrol, ih]
    rfl
  | @escape e c cs s he _ ih =>
    have hread := escape?_eq_some_iff.mpr ⟨e, he, List.append_assoc e cs ('"' :: rest)⟩
    rw [List.cons_append, stringBody?_escape hread, ih]
    rfl

/-- A string is read exactly where it is spelled, with a quote behind it. -/
theorem stringBody?_eq_some_iff {cs s rest : List Char} :
    stringBody? cs = some (s, rest) ↔
      ∃ content, IsContent content s ∧ cs = content ++ '"' :: rest := by
  constructor
  · intro h
    fun_induction stringBody? cs generalizing s with
    | case1 => exact nomatch h
    | case2 rest' =>
      cases h
      exact ⟨[], .nil, rfl⟩
    | case3 => exact nomatch h
    | case4 more c tail hescape hquote ih =>
      obtain ⟨⟨s', _⟩, hs', heq⟩ := Option.map_eq_some_iff.mp h
      cases heq
      obtain ⟨content, hcontent, rfl⟩ := ih hs'
      obtain ⟨e, he, rfl⟩ := escape?_eq_some_iff.mp hescape
      exact ⟨'\\' :: (e ++ content), .escape he hcontent, by simp⟩
    | case5 => exact nomatch h
    | case6 c more hquote hslash hcontrol ih =>
      obtain ⟨⟨s', _⟩, hs', heq⟩ := Option.map_eq_some_iff.mp h
      cases heq
      obtain ⟨content, hcontent, rfl⟩ := ih hs'
      exact ⟨c :: content, .plain hquote hslash hcontrol hcontent, rfl⟩
  · rintro ⟨content, hcontent, rfl⟩
    exact stringBody?_content hcontent rest
/-- A printed string is spelled. -/
theorem isContent_flatMap (cs : List Char) : IsContent (cs.flatMap escaped) cs := by
  obtain ⟨content, hcontent, heq⟩ := stringBody?_eq_some_iff.mp (stringBody?_flatMap cs [])
  rwa [List.append_cancel_right heq]

end Placement.Json
