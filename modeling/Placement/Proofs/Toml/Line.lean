import Mathlib.Data.List.TakeWhile
import Placement.Proofs.Json.Printed
import Placement.Proofs.Toml.Number
import Placement.Toml.Printer
import Placement.Toml.Reader
/-
  Lines of a printed document. A key without quotes is taken whole (`key?_entry`), a plain value at
  the end of its line is read as itself (`value?_renderPlain`), and so each printed line does one
  step of the reader: a key and a value add to the open table (`reads_entry`), a header opens
  another one (`reads_header`). Given keys of bare characters (`IsBareKey`) and values that are a
  flag, an integer, a finite double or a text without escapes (`IsPlain`).
-/
namespace Placement.Toml

open Json (Digits Numeral)

/-! ## Keys -/

/-- A key that is written without quotes. -/
def IsBareKey (key : String) : Prop := key.toList ≠ [] ∧ ∀ c ∈ key.toList, isBareChar c = true

instance (key : String) : Decidable (IsBareKey key) :=
  decidable_of_iff (key.toList ≠ [] ∧ key.toList.all isBareChar = true)
    (and_congr_right' List.all_eq_true)

section Key

variable {key : String} (hkey : IsBareKey key) {tail : List Char}
  (htail : ∃ c rest, tail = c :: rest ∧ isBareChar c = false)
include hkey

theorem IsBareKey.exists_cons : ∃ c rest, key.toList = c :: rest ∧ isBareChar c = true := by
  obtain ⟨c, rest, hcons⟩ := List.exists_cons_of_ne_nil hkey.1
  exact ⟨c, rest, hcons, hkey.2 c (hcons ▸ List.mem_cons_self)⟩

/-- A bare key is not skipped as a blank. -/
theorem skipSpace_key : skipSpace (key.toList ++ tail) = key.toList ++ tail := by
  obtain ⟨c, rest, hcons, hc⟩ := hkey.exists_cons
  have hspace : isSpace c = false := by
    unfold isSpace
    rw [Bool.or_eq_false_iff, decide_eq_false_iff_not, decide_eq_false_iff_not]
    constructor <;> rintro rfl <;> exact absurd hc (by decide)
  rw [hcons]
  unfold skipSpace
  rw [List.cons_append, List.dropWhile_cons_of_neg (by rw [hspace]; exact Bool.false_ne_true)]

include htail

/-- A bare key is taken whole. -/
theorem keyPart?_key : keyPart? (key.toList ++ tail) = some (key, tail) := by
  obtain ⟨c, rest, hcons, hc⟩ := hkey.exists_cons
  obtain ⟨t, more, rfl, ht⟩ := htail
  have hspan : (key.toList ++ t :: more).span isBareChar = (key.toList, t :: more) := by
    rw [List.span_eq_takeWhile_dropWhile, List.takeWhile_append_of_pos hkey.2,
      List.dropWhile_append_of_pos hkey.2, List.takeWhile_cons_of_neg (by simp [ht]),
      List.dropWhile_cons_of_neg (by simp [ht]), List.append_nil]
  unfold keyPart?
  split
  · rename_i heq
    rw [hcons] at heq
    rw [(List.cons.inj heq).1] at hc
    exact absurd hc (by decide)
  · rename_i heq
    rw [hcons] at heq
    rw [(List.cons.inj heq).1] at hc
    exact absurd hc (by decide)
  · rw [hspan]
    dsimp only
    rw [if_neg (by simpa using hkey.1), String.ofList_toList]

end Key

/-- The parts of a path of bare keys with dots between them. -/
theorem key?_path {path : List String} (hne : path ≠ []) (hpath : ∀ key ∈ path, IsBareKey key)
    {n : ℕ} (hn : path.length ≤ n) (rest : List Char) :
    key? n ((".".intercalate path).toList ++ ']' :: rest) = some (path, ']' :: rest) := by
  induction path generalizing n with
  | nil => exact absurd rfl hne
  | cons key path ih =>
    obtain ⟨hkey, hrest⟩ := List.forall_mem_cons.mp hpath
    obtain ⟨n, rfl⟩ : ∃ n', n = n' + 1 := ⟨n - 1, by rw [List.length_cons] at hn; omega⟩
    cases path with
    | nil =>
      rw [String.intercalate_singleton, key?, skipSpace_key hkey,
        keyPart?_key hkey ⟨']', rest, rfl, rfl⟩]
      rfl
    | cons key' path =>
      have htail := ih (List.cons_ne_nil _ _) hrest (n := n) (by simpa using hn)
      have htext : (".".intercalate (key :: key' :: path)).toList ++ ']' :: rest
          = key.toList ++ '.' :: ((".".intercalate (key' :: path)).toList ++ ']' :: rest) := by
        rw [String.intercalate_cons_cons, String.toList_append, String.toList_append,
          List.append_assoc, List.append_assoc]
        rfl
      rw [htext, key?, skipSpace_key hkey, keyPart?_key hkey ⟨'.', _, rfl, rfl⟩]
      show (key? n ((".".intercalate (key' :: path)).toList ++ ']' :: rest) >>= _) = _
      rw [htail]
      rfl

/-- A bare key before its value. -/
theorem key?_entry {key : String} (hkey : IsBareKey key) {n : ℕ} (rest : List Char) :
    key? (n + 1) (key.toList ++ ' ' :: '=' :: rest) = some ([key], '=' :: rest) := by
  rw [key?, skipSpace_key hkey, keyPart?_key hkey ⟨' ', _, rfl, rfl⟩]
  rfl

/-! ## Plain values -/

/-- A character that stands for itself between quotes. -/
def isPlainChar (c : Char) : Bool :=
  0x20 ≤ c.toNat && c.toNat ≠ 0x7F && c ≠ '"' && c ≠ '\\'

/-- A value that is printed in one line and read back. -/
inductive IsPlain : Toml → Prop
  | text {s : String} (h : ∀ c ∈ s.toList, isPlainChar c = true) : IsPlain (.text s)
  | integer (i : Int64) : IsPlain (.integer i)
  | double {x : Float} (h : x.isFinite = true) : IsPlain (.double x)
  | flag (b : Bool) : IsPlain (.flag b)

theorem escaped_of_isPlainChar {c : Char} (h : isPlainChar c = true) : Json.escaped c = [c] := by
  unfold isPlainChar at h
  simp only [Bool.and_eq_true, decide_eq_true_eq] at h
  obtain ⟨⟨⟨hlow, -⟩, hquote⟩, hslash⟩ := h
  have hcontrol (d : Char) (hd : d.toNat < 0x20) : c ≠ d := by
    rintro rfl
    omega
  unfold Json.escaped
  rw [if_neg hquote, if_neg hslash, if_neg (hcontrol _ (by decide)),
    if_neg (hcontrol _ (by decide)), if_neg (hcontrol _ (by decide)),
    if_neg (hcontrol _ (by decide)), if_neg (hcontrol _ (by decide)), if_neg (by omega)]

theorem toList_renderText {s : String} (h : ∀ c ∈ s.toList, isPlainChar c = true)
    (rest : List Char) :
    (Json.renderText s).toList ++ rest = '"' :: (s.toList ++ '"' :: rest) := by
  rw [Json.renderText_append]
  have hflat : s.toList.flatMap Json.escaped = s.toList := by
    rw [List.flatMap_congr fun c hc => escaped_of_isPlainChar (h c hc)]
    exact List.flatMap_singleton' _
  rw [hflat]

/-- Plain characters up to a quote. -/
theorem basic?_plain {cs : List Char} (h : ∀ c ∈ cs, isPlainChar c = true) {n : ℕ}
    (hn : cs.length < n) (rest : List Char) :
    basic? n (cs ++ '"' :: rest) = some (cs, rest) := by
  induction cs generalizing n with
  | nil =>
    obtain ⟨n, rfl⟩ : ∃ n', n = n' + 1 := ⟨n - 1, by omega⟩
    rw [List.nil_append, basic?, if_pos rfl]
  | cons c cs ih =>
    obtain ⟨hc, hcs⟩ := List.forall_mem_cons.mp h
    obtain ⟨n, rfl⟩ : ∃ n', n = n' + 1 := ⟨n - 1, by omega⟩
    have hbody := ih hcs (n := n) (by rw [List.length_cons] at hn; omega)
    unfold isPlainChar at hc
    simp only [Bool.and_eq_true, decide_eq_true_eq] at hc
    obtain ⟨⟨⟨hlow, hdelete⟩, hquote⟩, hslash⟩ := hc
    have hcomment : isCommentChar c = true := by
      unfold isCommentChar
      simp [hlow, hdelete]
    rw [List.cons_append, basic?, if_neg hquote, if_neg hslash, if_pos hcomment, hbody]
    rfl

theorem scalar?_text {s : String} (h : ∀ c ∈ s.toList, isPlainChar c = true) (rest : List Char) :
    scalar? ('"' :: (s.toList ++ '"' :: '\n' :: rest)) = some (.text s, '\n' :: rest) := by
  have hstring : string? ('"' :: (s.toList ++ '"' :: '\n' :: rest)) = some (s, '\n' :: rest) := by
    have hbody := basic?_plain h (n := (s.toList ++ '"' :: '\n' :: rest).length + 1)
      (by rw [List.length_append]; omega) ('\n' :: rest)
    unfold string?
    split
    · rename_i heq
      -- three quotes would need a quote in the text, or a quote for the end of the line
      have heq' := (List.cons.inj heq).2
      cases hs : s.toList with
      | nil =>
        rw [hs] at heq'
        cases heq'
      | cons c cs =>
        rw [hs] at heq' h
        rw [(List.cons.inj heq').1] at h
        exact absurd (h '"' List.mem_cons_self) (by decide)
    · rename_i heq
      cases heq
    · rename_i heq
      cases heq
      rw [hbody]
      exact congrArg (fun t => some (t, '\n' :: rest)) String.ofList_toList
    · rename_i heq
      cases heq
    · rename_i hno _
      exact absurd rfl (hno _)
  show (string? ('"' :: (s.toList ++ '"' :: '\n' :: rest))).map _ = _
  rw [hstring]
  rfl

section Number

variable (n : Numeral) (rest : List Char)

/-- A numeral starts with a digit or a minus. -/
theorem chars_head :
    ∃ c more, n.chars ++ '\n' :: rest = c :: more ∧ (c.isDigit = true ∨ c = '-') := by
  obtain ⟨c, more, hcons, hc⟩ := n.unsignedChars_head
  unfold Numeral.chars
  cases n.negative with
  | true => exact ⟨'-', _, rfl, .inr rfl⟩
  | false =>
    rw [if_neg Bool.false_ne_true, hcons]
    exact ⟨c, _, rfl, .inl hc⟩

/-- Neither quotes nor a truth value start like a numeral. -/
theorem scalar?_numeral :
    scalar? (n.chars ++ '\n' :: rest) = numberOrMoment? (n.chars ++ '\n' :: rest) := by
  obtain ⟨c, more, hcons, hc⟩ := chars_head n rest
  have hne {c' : Char} {more' : List Char} (hc' : c'.isDigit = false ∧ c' ≠ '-') :
      n.chars ++ '\n' :: rest ≠ c' :: more' := by
    intro heq
    rw [hcons] at heq
    obtain rfl := (List.cons.inj heq).1
    rcases hc with hc | hc
    · rw [hc'.1] at hc
      exact Bool.false_ne_true hc
    · exact hc'.2 hc
  unfold scalar?
  split
  · exact absurd ‹_› (hne (by decide))
  · exact absurd ‹_› (hne (by decide))
  · exact absurd ‹_› (hne (by decide))
  · exact absurd ‹_› (hne (by decide))
  · rfl

end Number

theorem scalar?_double {x : Float} (hx : x.isFinite = true) (rest : List Char) :
    scalar? ((Decimal.pointed.write x).toList ++ '\n' :: rest)
      = some (.double x, '\n' :: rest) := by
  obtain ⟨n, htext, hfraction, hpower, rfl⟩ := Json.exists_pointed hx
  rw [htext, scalar?_numeral, numberOrMoment?_double n hpower rest hfraction hx]

/-- The numeral that an integer is printed as. -/
def numeral (i : Int64) : Numeral where
  negative := decide (i < 0)
  whole := .ofNat i.toInt.natAbs
  fraction := none
  power := none
  leading := by
    rcases Nat.eq_zero_or_pos i.toInt.natAbs with hzero | hpos
    · rw [hzero]
      exact .inl rfl
    · exact .inr (Digits.head_ofNat hpos)

theorem toList_renderInteger (i : Int64) : (renderInteger i).toList = (numeral i).chars := by
  have hchars : (numeral i).unsignedChars = (Decimal.digitText i.toInt.natAbs).toList := by
    simp [numeral, Numeral.unsignedChars, Numeral.fractionChars, Numeral.powerChars, Digits.ofNat,
      Decimal.digitText]
  show (if i < 0 then "-" ++ Decimal.digitText i.toInt.natAbs
    else Decimal.digitText i.toInt.natAbs).toList
    = if decide (i < 0) = true then '-' :: (numeral i).unsignedChars else (numeral i).unsignedChars
  rw [hchars]
  by_cases h : i < 0
  · rw [if_pos h, if_pos (decide_eq_true h), String.toList_append]
    rfl
  · rw [if_neg h, if_neg (by simpa using h)]

theorem integer?_eq {negative : Bool} {m : ℕ} {i : Int64}
    (hfits : if negative then m ≤ 0x8000000000000000 else m < 0x8000000000000000)
    (hi : Decimal.signed negative m = i.toInt) : integer? negative m = some (.integer i) := by
  unfold integer?
  rw [if_pos hfits, hi, Int64.ofInt_toInt]

theorem integer?_numeral (i : Int64) :
    integer? (numeral i).negative (Decimal.ofDigits (numeral i).whole.chars)
      = some (.integer i) := by
  have hlow := i.le_toInt
  have hhigh := i.toInt_lt
  show integer? (decide (i < 0)) (Decimal.ofDigits (Nat.toDigits 10 i.toInt.natAbs)) = _
  rw [Decimal.ofDigits_toDigits]
  by_cases h : i < 0
  · have hneg : i.toInt < 0 := by simpa using Int64.lt_iff_toInt_lt.mp h
    rw [decide_eq_true h]
    refine integer?_eq (show i.toInt.natAbs ≤ 0x8000000000000000 by omega) ?_
    show -(i.toInt.natAbs : ℤ) = i.toInt
    omega
  · have hpos : 0 ≤ i.toInt := by simpa using Int64.lt_iff_toInt_lt.not.mp h
    rw [show decide (i < 0) = false by simpa using h]
    refine integer?_eq (show i.toInt.natAbs < 0x8000000000000000 by omega) ?_
    show (i.toInt.natAbs : ℤ) = i.toInt
    omega

theorem scalar?_integer (i : Int64) (rest : List Char) :
    scalar? ((renderInteger i).toList ++ '\n' :: rest) = some (.integer i, '\n' :: rest) := by
  rw [toList_renderInteger, scalar?_numeral,
    numberOrMoment?_integer _ rfl rest rfl (integer?_numeral i)]

theorem scalar?_flag (b : Bool) (rest : List Char) :
    scalar? ((if b then "true" else "false").toList ++ '\n' :: rest)
      = some (.flag b, '\n' :: rest) := by
  cases b <;> rfl

/-- A plain value starts neither like a blank nor like an array or an inline table. -/
theorem renderPlain_head {v : Toml} (h : IsPlain v) (rest : List Char) :
    ∃ c more, (renderPlain v).toList ++ '\n' :: rest = c :: more ∧
      isSpace c = false ∧ c ≠ '[' ∧ c ≠ '\x7b' := by
  have hnumeral (n : Numeral) : ∃ c more, n.chars ++ '\n' :: rest = c :: more ∧
      isSpace c = false ∧ c ≠ '[' ∧ c ≠ '\x7b' := by
    obtain ⟨c, more, hcons, hc⟩ := chars_head n rest
    refine ⟨c, more, hcons, ?_⟩
    rcases hc with hc | rfl
    · have hne {c' : Char} (hc' : c'.isDigit = false) : c ≠ c' := by
        rintro rfl
        exact Bool.false_ne_true (hc'.symm.trans hc)
      simp [isSpace, hne]
    · decide
  cases h with
  | text h => exact ⟨'"', _, toList_renderText h _, by decide⟩
  | integer i =>
    show ∃ c more, (renderInteger i).toList ++ '\n' :: rest = c :: more ∧ _
    rw [toList_renderInteger]
    exact hnumeral _
  | double h =>
    obtain ⟨n, htext, -⟩ := Json.exists_pointed h
    show ∃ c more, (Decimal.pointed.write _).toList ++ '\n' :: rest = c :: more ∧ _
    rw [htext]
    exact hnumeral n
  | flag b => cases b <;> exact ⟨_, _, rfl, by decide⟩

/-- A plain value at the end of its line is read as itself. -/
theorem value?_renderPlain {v : Toml} (h : IsPlain v) (depth : ℕ) (rest : List Char) :
    value? depth (skipSpace (' ' :: ((renderPlain v).toList ++ '\n' :: rest)))
      = some (v, '\n' :: rest) := by
  have hscalar : scalar? ((renderPlain v).toList ++ '\n' :: rest) = some (v, '\n' :: rest) := by
    cases h with
    | text h =>
      show scalar? ((Json.renderText _).toList ++ '\n' :: rest) = _
      rw [toList_renderText h, scalar?_text h]
    | integer i => exact scalar?_integer i rest
    | double h => exact scalar?_double h rest
    | flag b => exact scalar?_flag b rest
  obtain ⟨c, more, hcons, hspace, harray, htable⟩ := renderPlain_head h rest
  rw [hcons] at hscalar ⊢
  have hskip : skipSpace (' ' :: c :: more) = c :: more := by
    unfold skipSpace
    rw [List.dropWhile_cons_of_pos rfl,
      List.dropWhile_cons_of_neg (by rw [hspace]; exact Bool.false_ne_true)]
  rw [hskip]
  cases depth with
  | zero => exact hscalar
  | succ depth =>
    unfold value?
    split
    · exact absurd (List.cons.inj ‹_›).1 harray
    · exact absurd (List.cons.inj ‹_›).1 htable
    · exact hscalar

/-! ## Steps of the reader -/

/-- With lines enough, the reader gets from one draft and text to another. -/
def Reads (d : Draft) (cs : List Char) (d' : Draft) (cs' : List Char) : Prop :=
  ∀ n, cs.length < n → ∃ n', cs'.length < n' ∧ readLines? n d cs = readLines? n' d' cs'

namespace Reads

variable {d d' d'' : Draft} {cs cs' cs'' : List Char}

theorem refl (d : Draft) (cs : List Char) : Reads d cs d cs := fun n hn => ⟨n, hn, rfl⟩

theorem trans (h : Reads d cs d' cs') (h' : Reads d' cs' d'' cs'') : Reads d cs d'' cs'' := by
  intro n hn
  obtain ⟨n', hn', heq⟩ := h n hn
  obtain ⟨n'', hn'', heq'⟩ := h' n' hn'
  exact ⟨n'', hn'', heq.trans heq'⟩

/-- One line. -/
theorem of_step (hlength : cs'.length < cs.length)
    (h : ∀ n, readLines? (n + 1) d cs = readLines? n d' cs') : Reads d cs d' cs' := by
  intro n hn
  obtain ⟨n, rfl⟩ : ∃ n', n = n' + 1 := ⟨n - 1, by omega⟩
  exact ⟨n, by omega, h n⟩

/-- A text that is read to its end. -/
theorem readLines?_eq (h : Reads d cs d' []) : readLines? (cs.length + 1) d cs = some d' := by
  obtain ⟨n, hn, heq⟩ := h (cs.length + 1) (Nat.lt_succ_self _)
  obtain ⟨n, rfl⟩ : ∃ n', n = n' + 1 := ⟨n - 1, by rw [List.length_nil] at hn; omega⟩
  rw [heq]
  rfl

end Reads

/-- Where a line starts with a key, it gives the key its value. -/
theorem readLines?_key {key : String} (hkey : IsBareKey key) (n : ℕ) (d : Draft)
    (tail : List Char) :
    readLines? (n + 1) d (key.toList ++ tail)
      = (keyValue? d (key.toList ++ tail)).bind fun r => readLines? n r.1 r.2 := by
  obtain ⟨c, more, hcons, hc⟩ := hkey.exists_cons
  rw [readLines?, skipSpace_key hkey, hcons, List.cons_append]
  have hne {c' : Char} {more' : List Char} (hc' : isBareChar c' = false) :
      c :: (more ++ tail) ≠ c' :: more' := by
    intro heq
    rw [(List.cons.inj heq).1, hc'] at hc
    exact Bool.false_ne_true hc
  split
  · cases ‹_ = []›
  split
  · exact absurd ‹_› (hne (by decide))
  · exact absurd ‹_› (hne (by decide))
  · exact absurd ‹_› (hne (by decide))
  · exact absurd ‹_› (hne (by decide))
  · rfl

theorem keyValue?_entry {key : String} {v : Toml} {d d' : Draft} (hkey : IsBareKey key)
    (hv : IsPlain v) (hinsert : d.insert? [] key v = some d') (rest : List Char) :
    keyValue? d (key.toList ++ ' ' :: '=' :: ' ' :: ((renderPlain v).toList ++ '\n' :: rest))
      = some (d', rest) := by
  unfold keyValue? depthLimit
  rw [key?_entry hkey]
  show (value? 79 (skipSpace (' ' :: ((renderPlain v).toList ++ '\n' :: rest))) >>= _) = _
  rw [value?_renderPlain hv]
  show (d.insert? [] key v >>= _) = _
  rw [hinsert]
  rfl

/-- A line with a key and a plain value adds them to the open table. -/
theorem reads_entry {key : String} {v : Toml} {d d' : Draft} (hkey : IsBareKey key)
    (hv : IsPlain v) (hinsert : d.insert? [] key v = some d') (rest : List Char) :
    Reads d ((key ++ " = " ++ renderPlain v ++ "\n").toList ++ rest) d' rest := by
  have htext : (key ++ " = " ++ renderPlain v ++ "\n").toList ++ rest
      = key.toList ++ ' ' :: '=' :: ' ' :: ((renderPlain v).toList ++ '\n' :: rest) := by
    simp
  rw [htext]
  refine .of_step (by simp; omega) fun n => ?_
  rw [readLines?_key hkey, keyValue?_entry hkey hv hinsert]
  rfl

theorem header?_path {path : List String} {d d' : Draft} (hne : path ≠ [])
    (hpath : ∀ key ∈ path, IsBareKey key) (hdepth : path.length ≤ depthLimit)
    (hopen : d.openTable? path = some d') (rest : List Char) :
    header? d ('[' :: ((".".intercalate path).toList ++ ']' :: '\n' :: rest))
      = some (d', rest) := by
  have hkey := key?_path hne hpath hdepth ('\n' :: rest)
  unfold header?
  split
  · rename_i heq
    -- no key starts with a bracket
    rw [(List.cons.inj heq).2] at hkey
    cases hkey
  · rename_i heq
    cases heq
    rw [hkey]
    show (d.openTable? path >>= _) = _
    rw [hopen]
    rfl
  · rename_i hno
    exact absurd rfl (hno _)

/-- A header opens its table. -/
theorem reads_header {path : List String} {d d' : Draft} (hne : path ≠ [])
    (hpath : ∀ key ∈ path, IsBareKey key) (hdepth : path.length ≤ depthLimit)
    (hopen : d.openTable? path = some d') (rest : List Char) :
    Reads d ((header path).toList ++ rest) d' rest := by
  have htext : (header path).toList ++ rest
      = '\n' :: '[' :: ((".".intercalate path).toList ++ ']' :: '\n' :: rest) := by
    simp [header]
  rw [htext]
  refine .trans (.of_step (Nat.lt_succ_self _) fun n => rfl) ?_
  refine .of_step (by simp; omega) fun n => ?_
  show ((header? d ('[' :: ((".".intercalate path).toList ++ ']' :: '\n' :: rest))).bind _) = _
  rw [header?_path hne hpath hdepth hopen]
  rfl

end Placement.Toml
