import Mathlib.Data.List.Basic
import Mathlib.Tactic.IntervalCases
import Placement.Text.Octets
/-
  Octets of a text. `decodeOctets_char`: each character is decoded from its own octets, whatever
  follows them. `eq_flatMap_of_decodeOctets`: octets that decode to a character are its own; none is
  decoded from more octets than it needs, and no surrogate is decoded. So octets are read as a text
  exactly if they are those of the text (`ofOctets?_eq_some_iff`).

  The cases are those of the encoding: one to four octets, and among the first octets those that
  narrow the second one.
-/
namespace Placement.Text

/-! ## First octets -/

theorem leadOf_two {k : Nat} (hlow : 2 ≤ k) (hhigh : k < 32) :
    Lead.of? (k + 0xC0) = some ⟨1, k, 0x80, 0xBF⟩ := by
  interval_cases k <;> rfl

/-- Of the first octets of three, one needs a high second octet and one a low one. -/
theorem leadOf_three {k : Nat} (h : k < 16) :
    Lead.of? (k + 0xE0)
      = some ⟨2, k, if k = 0 then 0xA0 else 0x80, if k = 13 then 0x9F else 0xBF⟩ := by
  interval_cases k <;> rfl

/-- Of the first octets of four, the first needs a high second octet and the last a low one. -/
theorem leadOf_four {k : Nat} (h : k < 5) :
    Lead.of? (k + 0xF0)
      = some ⟨3, k, if k = 0 then 0x90 else 0x80, if k = 4 then 0x8F else 0xBF⟩ := by
  interval_cases k <;> rfl

/-! ## Characters -/

theorem toNat_octet {n : Nat} (h : n < 256) : (UInt8.ofNat n).toNat = n := by
  rw [UInt8.toNat_ofNat']
  exact Nat.mod_eq_of_lt h

/-- An octet that goes on with a character adds its six bits. -/
theorem finishChar_continuation {owed bits low high n : Nat}
    (h : low ≤ n % 0x40 + 0x80 ∧ n % 0x40 + 0x80 ≤ high) (rest : List UInt8) :
    finishChar (owed + 1) bits low high (UInt8.ofNat (n % 0x40 + 0x80) :: rest)
      = finishChar owed (bits * 0x40 + n % 0x40) 0x80 0xBF rest := by
  have hb : (UInt8.ofNat (n % 0x40 + 0x80)).toNat = n % 0x40 + 0x80 := toNat_octet (by omega)
  simp only [finishChar, hb, if_pos h]
  rw [show (n % 0x40 + 0x80) % 0x40 = n % 0x40 by omega]

theorem decodeOctets_ascii {n : Nat} (h : n < 0x80) (rest : List UInt8) :
    decodeOctets (UInt8.ofNat n :: rest) = some (Char.ofNat n) :: decodeOctets rest := by
  have hb : (UInt8.ofNat n).toNat = n := toNat_octet (by omega)
  have hlt : UInt8.ofNat n < 0x80 := UInt8.lt_iff_toNat_lt.mpr (by rw [hb]; exact h)
  rw [decodeOctets, if_pos hlt, hb]

theorem decodeOctets_lead {n : Nat} {lead : Lead} (hlow : 0x80 ≤ n) (hhigh : n < 256)
    (h : Lead.of? n = some lead) {rest after : List UInt8} {c : Option Char}
    (hf : finishChar lead.owed lead.bits lead.low lead.high rest = (c, after)) :
    decodeOctets (UInt8.ofNat n :: rest) = c :: decodeOctets after := by
  have hb : (UInt8.ofNat n).toNat = n := toNat_octet hhigh
  have hnot : ¬ UInt8.ofNat n < 0x80 := fun hlt => by
    have hn := UInt8.lt_iff_toNat_lt.mp hlt
    rw [hb] at hn
    exact absurd hn (Nat.not_lt.mpr hlow)
  rw [decodeOctets, if_neg hnot, hb, h]
  dsimp only
  rw [hf]

/-- A character is decoded from its octets. -/
theorem decodeOctets_char (c : Char) (rest : List UInt8) :
    decodeOctets (String.utf8EncodeChar c ++ rest) = some c :: decodeOctets rest := by
  have hv : c.val.toNat < 0xD800 ∨ 0xDFFF < c.val.toNat ∧ c.val.toNat < 0x110000 := c.valid
  have hc : Char.ofNat c.val.toNat = c := Char.ofNat_toNat c
  unfold String.utf8EncodeChar
  generalize c.val.toNat = v at hv hc
  dsimp only
  -- the first octet tells how many follow, each of them gives back six bits of the number
  split
  · rw [List.cons_append, decodeOctets_ascii (by omega), hc]
    rfl
  split
  · rw [show v / 64 % 0x20 = v / 64 by omega]
    refine decodeOctets_lead (by omega) (by omega) (leadOf_two (by omega) (by omega)) ?_
    show finishChar 1 (v / 64) 0x80 0xBF (_ :: rest) = _
    rw [finishChar_continuation (by omega), finishChar,
      show v / 64 * 0x40 + v % 0x40 = v by omega, hc]
  split
  · rw [show v / 4096 % 0x10 = v / 4096 by omega]
    refine decodeOctets_lead (by omega) (by omega) (leadOf_three (by omega)) ?_
    show finishChar 2 (v / 4096) (if v / 4096 = 0 then 0xA0 else 0x80)
      (if v / 4096 = 13 then 0x9F else 0xBF) (_ :: _ :: rest) = _
    rw [finishChar_continuation (by split <;> split <;> omega),
      finishChar_continuation (by omega), finishChar,
      show (v / 4096 * 0x40 + v / 64 % 0x40) * 0x40 + v % 0x40 = v by omega, hc]
  · rw [show v / 262144 % 0x08 = v / 262144 by omega]
    refine decodeOctets_lead (by omega) (by omega) (leadOf_four (by omega)) ?_
    show finishChar 3 (v / 262144) (if v / 262144 = 0 then 0x90 else 0x80)
      (if v / 262144 = 4 then 0x8F else 0xBF) (_ :: _ :: _ :: rest) = _
    rw [finishChar_continuation (by split <;> split <;> omega),
      finishChar_continuation (by omega), finishChar_continuation (by omega), finishChar,
      show ((v / 262144 * 0x40 + v / 4096 % 0x40) * 0x40 + v / 64 % 0x40) * 0x40 + v % 0x40 = v
        by omega, hc]

/-! ## What is decoded is a character -/

theorem octet_eq {b : UInt8} {n : Nat} (h : b.toNat = n) : b = UInt8.ofNat n := by
  rw [← h, UInt8.ofNat_toNat]

/-- The octets of a character by its number. -/
theorem utf8EncodeChar_ofNat {n : Nat} (h : n.isValidChar) :
    String.utf8EncodeChar (Char.ofNat n) =
      if n ≤ 0x7F then [UInt8.ofNat n]
      else if n ≤ 0x7FF then
        [UInt8.ofNat (n / 0x40 % 0x20 + 0xC0), UInt8.ofNat (n % 0x40 + 0x80)]
      else if n ≤ 0xFFFF then
        [UInt8.ofNat (n / 0x1000 % 0x10 + 0xE0), UInt8.ofNat (n / 0x40 % 0x40 + 0x80),
          UInt8.ofNat (n % 0x40 + 0x80)]
      else
        [UInt8.ofNat (n / 0x40000 % 0x08 + 0xF0), UInt8.ofNat (n / 0x1000 % 0x40 + 0x80),
          UInt8.ofNat (n / 0x40 % 0x40 + 0x80), UInt8.ofNat (n % 0x40 + 0x80)] := by
  have hn : (Char.ofNat n).val.toNat = n := by
    rw [Char.ofNat, dif_pos h]
    rfl
  unfold String.utf8EncodeChar
  rw [hn]

theorem finishChar_zero {bits low high : Nat} {bs rest : List UInt8} {c : Char}
    (h : finishChar 0 bits low high bs = (some c, rest)) : c = Char.ofNat bits ∧ bs = rest := by
  cases h
  exact ⟨rfl, rfl⟩

theorem finishChar_succ {owed bits low high : Nat} {bs rest : List UInt8} {c : Char}
    (h : finishChar (owed + 1) bits low high bs = (some c, rest)) :
    ∃ b more, bs = b :: more ∧ (low ≤ b.toNat ∧ b.toNat ≤ high) ∧
      finishChar owed (bits * 0x40 + b.toNat % 0x40) 0x80 0xBF more = (some c, rest) := by
  cases bs with
  | nil => simp [finishChar] at h
  | cons b more =>
    rw [finishChar] at h
    by_cases hb : low ≤ b.toNat ∧ b.toNat ≤ high
    · rw [if_pos hb] at h
      exact ⟨b, more, rfl, hb, h⟩
    · rw [if_neg hb] at h
      cases h

section

variable {b : UInt8} {low high : Nat} {bs rest : List UInt8} {c : Char}

theorem finishChar_two (hb : 0xC2 ≤ b.toNat ∧ b.toNat ≤ 0xDF)
    (h : finishChar 1 (b.toNat % 0x20) 0x80 0xBF bs = (some c, rest)) :
    b :: bs = String.utf8EncodeChar c ++ rest := by
  obtain ⟨b₁, _, rfl, h₁, h⟩ := finishChar_succ h
  obtain ⟨rfl, rfl⟩ := finishChar_zero h
  rw [utf8EncodeChar_ofNat (.inl (by omega)), if_neg (by omega), if_pos (by omega),
    ← octet_eq (b := b) (by omega), ← octet_eq (b := b₁) (by omega)]
  rfl

/-- The range of the second octet leaves out what fits two octets, and the surrogates. -/
theorem finishChar_three (hb : 0xE0 ≤ b.toNat ∧ b.toNat ≤ 0xEF) (hrange : 0x80 ≤ low ∧ high ≤ 0xBF)
    (hshort : b.toNat = 0xE0 → 0xA0 ≤ low) (hsurrogate : b.toNat = 0xED → high ≤ 0x9F)
    (h : finishChar 2 (b.toNat % 0x10) low high bs = (some c, rest)) :
    b :: bs = String.utf8EncodeChar c ++ rest := by
  obtain ⟨b₁, _, rfl, h₁, h⟩ := finishChar_succ h
  obtain ⟨b₂, _, rfl, h₂, h⟩ := finishChar_succ h
  obtain ⟨rfl, rfl⟩ := finishChar_zero h
  rw [utf8EncodeChar_ofNat (by unfold Nat.isValidChar; omega), if_neg (by omega),
    if_neg (by omega), if_pos (by omega), ← octet_eq (b := b) (by omega),
    ← octet_eq (b := b₁) (by omega), ← octet_eq (b := b₂) (by omega)]
  rfl

/-- The range of the second octet leaves out what fits three octets, and what is no character. -/
theorem finishChar_four (hb : 0xF0 ≤ b.toNat ∧ b.toNat ≤ 0xF4) (hrange : 0x80 ≤ low ∧ high ≤ 0xBF)
    (hshort : b.toNat = 0xF0 → 0x90 ≤ low) (hlast : b.toNat = 0xF4 → high ≤ 0x8F)
    (h : finishChar 3 (b.toNat % 0x08) low high bs = (some c, rest)) :
    b :: bs = String.utf8EncodeChar c ++ rest := by
  obtain ⟨b₁, _, rfl, h₁, h⟩ := finishChar_succ h
  obtain ⟨b₂, _, rfl, h₂, h⟩ := finishChar_succ h
  obtain ⟨b₃, _, rfl, h₃, h⟩ := finishChar_succ h
  obtain ⟨rfl, rfl⟩ := finishChar_zero h
  rw [utf8EncodeChar_ofNat (by unfold Nat.isValidChar; omega), if_neg (by omega),
    if_neg (by omega), if_neg (by omega), ← octet_eq (b := b) (by omega),
    ← octet_eq (b := b₁) (by omega), ← octet_eq (b := b₂) (by omega),
    ← octet_eq (b := b₃) (by omega)]
  rfl

/-- A first octet and what it is read with are the octets of a character. -/
theorem finishChar_eq_some {lead : Lead} (hlead : Lead.of? b.toNat = some lead)
    (h : finishChar lead.owed lead.bits lead.low lead.high bs = (some c, rest)) :
    b :: bs = String.utf8EncodeChar c ++ rest := by
  unfold Lead.of? at hlead
  split_ifs at hlead with h2 hE0 hED h3 hF0 h4 hF4
  all_goals
    cases hlead
    dsimp only at h
  · exact finishChar_two h2 h
  · exact finishChar_three (by omega) (by omega) (by omega) (by omega) h
  · exact finishChar_three (by omega) (by omega) (by omega) (by omega) h
  · exact finishChar_three (by omega) (by omega) (by omega) (by omega) h
  · exact finishChar_four (by omega) (by omega) (by omega) (by omega) h
  · exact finishChar_four (by omega) (by omega) (by omega) (by omega) h
  · exact finishChar_four (by omega) (by omega) (by omega) (by omega) h

end

/-- Octets that decode without a gap are those of the characters. -/
theorem eq_flatMap_of_decodeOctets {bs : List UInt8} {cs : List Char}
    (h : decodeOctets bs = cs.map some) : bs = cs.flatMap String.utf8EncodeChar := by
  fun_induction decodeOctets bs generalizing cs with
  | case1 =>
    obtain rfl := List.map_eq_nil_iff.mp h.symm
    rfl
  | case2 b rest hascii ih =>
    obtain ⟨c, cs, rfl, hc, hrest⟩ := List.map_eq_cons_iff.mp h.symm
    have hb : b.toNat < 0x80 := UInt8.lt_iff_toNat_lt.mp hascii
    rw [List.flatMap_cons, ← ih hrest.symm, Option.some.inj hc,
      utf8EncodeChar_ofNat (.inl (by omega)), if_pos (by omega), UInt8.ofNat_toNat]
    rfl
  | case3 =>
    obtain ⟨c, cs, rfl, hc, -⟩ := List.map_eq_cons_iff.mp h.symm
    exact nomatch hc
  | case4 b rest hascii lead hlead next =>
    rename_i ih
    obtain ⟨c, cs, rfl, hc, hrest⟩ := List.map_eq_cons_iff.mp h.symm
    rw [List.flatMap_cons, ← ih hrest.symm]
    exact finishChar_eq_some hlead (Prod.ext hc.symm rfl)

/-! ## Texts -/

theorem decodeOctets_flatMap (cs : List Char) :
    decodeOctets (cs.flatMap String.utf8EncodeChar) = cs.map some := by
  induction cs with
  | nil => rw [List.flatMap_nil, decodeOctets, List.map_nil]
  | cons c rest ih => rw [List.flatMap_cons, decodeOctets_char, ih, List.map_cons]

theorem toList_loop (bs : ByteArray) (i : Nat) (taken : List UInt8) :
    ByteArray.toList.loop bs i taken = taken.reverse ++ bs.data.toList.drop i := by
  induction hk : bs.size - i generalizing i taken with
  | zero =>
    have hlen : bs.data.toList.length ≤ i := Nat.le_of_sub_eq_zero hk
    rw [ByteArray.toList.loop, if_neg (by omega), List.drop_eq_nil_of_le hlen, List.append_nil]
  | succ k ih =>
    have hi : i < bs.data.toList.length := by
      show i < bs.size
      omega
    have hget : bs.get! i = bs.data.toList[i] := getElem!_pos bs.data i hi
    rw [ByteArray.toList.loop, if_pos (by omega), ih (i + 1) _ (by omega), hget,
      List.drop_eq_getElem_cons hi, List.reverse_cons, List.append_assoc]
    rfl

/-- The octets of a text are those of its characters. -/
theorem toOctets_eq_flatMap (s : String) :
    toOctets s = s.toList.flatMap String.utf8EncodeChar := by
  have hs : s.toByteArray = (s.toList.flatMap String.utf8EncodeChar).toByteArray := by
    conv => lhs; rw [← String.ofList_toList (s := s)]
    rfl
  show ByteArray.toList.loop s.toByteArray 0 [] = _
  rw [toList_loop, hs, List.toList_data_toByteArray]
  rfl

theorem mapM_id_eq_some_iff {α : Type} {l : List (Option α)} {as : List α} :
    l.mapM id = some as ↔ l = as.map some := by
  induction l generalizing as with
  | nil => cases as <;> simp
  | cons a l ih =>
    rw [List.mapM_cons]
    simp only [id, Option.bind_eq_bind, Option.bind_eq_some_iff, ih]
    cases as <;> simp

/-- A text is read back from its octets. -/
theorem ofOctets?_toOctets (s : String) : ofOctets? (toOctets s) = some s := by
  have hread : (s.toList.map some).mapM id = some s.toList := mapM_id_eq_some_iff.mpr rfl
  unfold ofOctets?
  rw [toOctets_eq_flatMap, decodeOctets_flatMap, hread, Option.map_some, String.ofList_toList]

/-- Octets are read as a text exactly if they are those of the text. -/
theorem ofOctets?_eq_some_iff {bs : List UInt8} {s : String} :
    ofOctets? bs = some s ↔ bs = toOctets s := by
  constructor
  · intro h
    obtain ⟨cs, hcs, rfl⟩ := Option.map_eq_some_iff.mp h
    rw [toOctets_eq_flatMap, String.toList_ofList]
    exact eq_flatMap_of_decodeOctets (mapM_id_eq_some_iff.mp hcs)
  · rintro rfl
    exact ofOctets?_toOctets s

end Placement.Text
