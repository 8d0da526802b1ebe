import Mathlib.Data.List.TakeWhile
import Placement.Json.Reader
import Placement.Text.Blank
/-
  Trimming. At either end blanks are dropped up to the first character that is none, and nothing
  behind it is touched (`trimChars_append`); only of a text of blanks nothing is left
  (`dropBack_eq_nil_iff`). The blanks of JSON are blank, digits are not.
-/
namespace Placement.Text

theorem isBlank_of_isSpace {c : Char} (h : Json.isSpace c = true) : isBlank c = true := by
  simp only [Json.isSpace, Bool.or_eq_true, decide_eq_true_eq] at h
  rcases h with ((rfl | rfl) | rfl) | rfl <;> rfl

theorem not_isBlank_of_isDigit {c : Char} (h : c.isDigit = true) : isBlank c = false := by
  have hlow : 48 ≤ c.toNat := by
    simp only [Char.isDigit, Bool.and_eq_true, decide_eq_true_eq] at h
    exact h.1
  have hhigh : c.toNat ≤ 57 := by
    simp only [Char.isDigit, Bool.and_eq_true, decide_eq_true_eq] at h
    exact h.2
  simp only [isBlank, Bool.or_eq_false_iff, Bool.and_eq_false_iff, decide_eq_false_iff_not]
  omega

theorem skipBlanks_cons {c : Char} (h : isBlank c = false) (rest : List Char) :
    skipBlanks (c :: rest) = c :: rest := by
  unfold skipBlanks
  rw [List.dropWhile_cons_of_neg (by rw [h]; exact Bool.false_ne_true)]

/-- Drops the blanks at the back. -/
def dropBack (cs : List Char) : List Char := (skipBlanks cs.reverse).reverse

/-- What is no blank stays, with what is before it. -/
theorem dropBack_append_cons {c : Char} (h : isBlank c = false) (before after : List Char) :
    dropBack (before ++ c :: after) = before ++ c :: dropBack after := by
  have hreverse : (before ++ c :: after).reverse = after.reverse ++ c :: before.reverse := by simp
  unfold dropBack skipBlanks
  rw [hreverse, List.dropWhile_append]
  split
  · rename_i hempty
    rw [List.isEmpty_iff.mp hempty, List.dropWhile_cons_of_neg (by rw [h]; exact Bool.false_ne_true)]
    simp
  · simp

theorem dropBack_eq_nil_iff {cs : List Char} : dropBack cs = [] ↔ cs.all isBlank = true := by
  unfold dropBack skipBlanks
  rw [List.reverse_eq_nil_iff, List.dropWhile_eq_nil_iff, List.all_eq_true]
  simp

/-- Blanks at the back are dropped up to one that is none. -/
theorem exists_mem_dropBack {cs : List Char} (h : cs.all isBlank = false) :
    ∃ c ∈ dropBack cs, isBlank c = false := by
  obtain ⟨c, hc, hblank⟩ := List.all_eq_false.mp h
  have hc' : isBlank c = false := Bool.eq_false_iff.mpr hblank
  obtain ⟨before, after, rfl⟩ := List.append_of_mem hc
  rw [dropBack_append_cons hc']
  exact ⟨c, by simp, hc'⟩

theorem exists_first_not_isBlank {cs : List Char} (h : cs.all isBlank = false) :
    ∃ before c after, cs = before ++ c :: after ∧ before.all isBlank = true ∧
      isBlank c = false := by
  induction cs with
  | nil => exact nomatch h
  | cons c rest ih =>
    cases hc : isBlank c with
    | false => exact ⟨[], c, rest, rfl, rfl, hc⟩
    | true =>
      rw [List.all_cons, hc, Bool.true_and] at h
      obtain ⟨before, c', after, rfl, hbefore, hc'⟩ := ih h
      exact ⟨c :: before, c', after, rfl, by rw [List.all_cons, hc, hbefore]; rfl, hc'⟩

/-- Of a text is left what follows its blanks at the front, its blanks at the back aside. -/
theorem trimChars_append {before : List Char} (h : before.all isBlank = true) {c : Char}
    (hc : isBlank c = false) (after : List Char) :
    trimChars (before ++ c :: after) = c :: dropBack after := by
  have hskip : skipBlanks (before ++ c :: after) = c :: after := by
    unfold skipBlanks
    rw [List.dropWhile_append_of_pos (List.all_eq_true.mp h)]
    exact skipBlanks_cons hc after
  unfold trimChars
  rw [hskip]
  exact dropBack_append_cons hc [] after

end Placement.Text
