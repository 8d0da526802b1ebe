/-
  UTF-8 as octets. A sequence is read character by character; what fits no character is kept as
  a gap, so that a strict and a forgiving reading share one rule.
-/
namespace Placement.Text

/-- How a character goes on after its first octet: `owed` octets, the next between `low` and
`high`, over the bits read so far. -/
structure Lead where
  owed : Nat
  bits : Nat
  low : Nat
  high : Nat

/-- What a first octet above `7F` opens, if anything. -/
def Lead.of? (b : Nat) : Option Lead :=
  if 0xC2 ≤ b ∧ b ≤ 0xDF then some ⟨1, b % 0x20, 0x80, 0xBF⟩
  else if b = 0xE0 then some ⟨2, b % 0x10, 0xA0, 0xBF⟩
  else if b = 0xED then some ⟨2, b % 0x10, 0x80, 0x9F⟩
  else if 0xE1 ≤ b ∧ b ≤ 0xEF then some ⟨2, b % 0x10, 0x80, 0xBF⟩
  else if b = 0xF0 then some ⟨3, b % 0x08, 0x90, 0xBF⟩
  else if 0xF1 ≤ b ∧ b ≤ 0xF3 then some ⟨3, b % 0x08, 0x80, 0xBF⟩
  else if b = 0xF4 then some ⟨3, b % 0x08, 0x80, 0x8F⟩
  else none

/-- Reads the octets owed after a first one. At an octet that cannot follow, the character is a
gap and that octet is read anew. -/
def finishChar : Nat → Nat → Nat → Nat → List UInt8 → Option Char × List UInt8
  | 0, bits, _, _, rest => (some (Char.ofNat bits), rest)
  | _ + 1, _, _, _, [] => (none, [])
  | owed + 1, bits, low, high, b :: rest =>
    if low ≤ b.toNat ∧ b.toNat ≤ high then
      finishChar owed (bits * 0x40 + b.toNat % 0x40) 0x80 0xBF rest
    else (none, b :: rest)

theorem length_finishChar_le (owed bits low high : Nat) (bs : List UInt8) :
    (finishChar owed bits low high bs).2.length ≤ bs.length := by
  induction bs generalizing owed bits low high with
  | nil => cases owed <;> simp [finishChar]
  | cons b rest ih =>
    cases owed with
    | zero => simp [finishChar]
    | succ owed =>
      simp only [finishChar]
      split
      · exact Nat.le_succ_of_le (ih _ _ _ _)
      · simp

/-- The characters of a sequence of octets, with a gap for each stretch that fits none. -/
def decodeOctets : List UInt8 → List (Option Char)
  | [] => []
  | b :: rest =>
    if b < 0x80 then some (Char.ofNat b.toNat) :: decodeOctets rest
    else match Lead.of? b.toNat with
      | none => none :: decodeOctets rest
      | some lead =>
        let next := finishChar lead.owed lead.bits lead.low lead.high rest
        next.1 :: decodeOctets next.2
  termination_by bs => bs.length
  decreasing_by
    all_goals simp_wf
    all_goals have := length_finishChar_le lead.owed lead.bits lead.low lead.high rest
    all_goals omega

/-- The text of a sequence of octets, if it is all characters. -/
def ofOctets? (bs : List UInt8) : Option String :=
  (decodeOctets bs).mapM id |>.map String.ofList

/-- The text of a sequence of octets, with the replacement character in the gaps. -/
def ofOctetsLossy (bs : List UInt8) : String :=
  String.ofList ((decodeOctets bs).map (·.getD '\uFFFD'))

/-- The octets of a text. -/
def toOctets (s : String) : List UInt8 := s.toUTF8.toList

end Placement.Text
