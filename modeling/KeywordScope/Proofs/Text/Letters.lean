import KeywordScope.Proofs.Text.Joined
import KeywordScope.Text.Blank
import KeywordScope.Text.CharClass

/-!
# Letters and blanks

* `isWordChar_of_isAlphanum`, `isBlank_of_isWordChar`: letters and digits stand in identifiers, and
  blanks do not.
* `isBlank_toLower`, `toLower_eq_iff`: only letters have a small letter of their own.
* `foldCase_trim`: blanks are removed in the same way from all spellings of a text.
-/

namespace KeywordScope

/-! ## Identifiers -/

/-- The code points of letters. -/
theorem isAlpha_iff {c : Char} : c.isAlpha = true ↔
    (65 ≤ c.toNat ∧ c.toNat ≤ 90) ∨ (97 ≤ c.toNat ∧ c.toNat ≤ 122) := by
  have hcode : c.isAlpha =
      (decide (c.val ≥ 65 ∧ c.val ≤ 90) || (decide (c.val ≥ 97) && decide (c.val ≤ 122))) := rfl
  simp only [hcode, Bool.or_eq_true, Bool.and_eq_true, decide_eq_true_eq, ge_iff_le,
    UInt32.le_iff_toNat_le]
  rfl

/-- The code points of digits. -/
theorem isDigit_iff {c : Char} : c.isDigit = true ↔ 48 ≤ c.toNat ∧ c.toNat ≤ 57 := by
  have hcode : c.isDigit = (decide (c.val ≥ 48) && decide (c.val ≤ 57)) := rfl
  simp only [hcode, Bool.and_eq_true, decide_eq_true_eq, ge_iff_le, UInt32.le_iff_toNat_le]
  rfl

theorem code_of_isAlphanum {c : Char} (h : c.isAlphanum = true) : 48 ≤ c.toNat ∧ c.toNat ≤ 122 := by
  rcases Bool.or_eq_true_iff.1 h with h | h
  · rw [isAlpha_iff] at h
    omega
  · rw [isDigit_iff] at h
    omega

theorem isDigit_of_isAlpha {c : Char} (h : c.isAlpha = true) : c.isDigit = false := by
  rw [isAlpha_iff] at h
  rw [Bool.eq_false_iff, ne_eq, isDigit_iff]
  omega

theorem isWordChar_of_isAlphanum {c : Char} (h : c.isAlphanum = true) : isWordChar c = true := by
  have := code_of_isAlphanum h
  rw [isWordChar, if_pos (by omega), h, Bool.true_or]

theorem isWordChar_of_isAlpha {c : Char} (h : c.isAlpha = true) : isWordChar c = true :=
  isWordChar_of_isAlphanum (by rw [Char.isAlphanum, h, Bool.true_or])

/-- The blanks outside ASCII. -/
def wideBlanks : List Nat :=
  [0x85, 0xA0, 0x1680, 0x2028, 0x2029, 0x202F, 0x205F, 0x3000] ++ List.range' 0x2000 11

theorem mem_wideBlanks {c : Char} (h : isBlank c = true) (hc : ¬ c.toNat < 0x80) :
    c.toNat ∈ wideBlanks := by
  simp only [isBlank, Bool.or_eq_true, Bool.and_eq_true, decide_eq_true_eq, beq_iff_eq] at h
  simp only [wideBlanks, List.mem_append, List.mem_cons, List.not_mem_nil, List.mem_range'_1]
  omega

open UnicodeData in
theorem wideBlanks_not_covered : wideBlanks.all (fun n =>
    !(covers alphabetic n || covers mark n || covers decimalDigit n || covers connector n ||
      covers joinControl n)) = true := by
  decide +kernel

theorem isBlank_of_isWordChar {c : Char} (h : isWordChar c = true) : isBlank c = false := by
  unfold isWordChar at h
  split at h
  · have hcode : 48 ≤ c.toNat ∧ c.toNat ≤ 122 := by
      rcases Bool.or_eq_true_iff.1 h with h | h
      · exact code_of_isAlphanum h
      · rw [beq_iff_eq] at h
        subst h
        decide
    simp only [isBlank, Bool.or_eq_false_iff, Bool.and_eq_false_iff, decide_eq_false_iff_not, beq_eq_false_iff_ne]
    omega
  · next hc =>
    by_contra hblank
    have hmem := mem_wideBlanks (Bool.not_eq_false _ ▸ hblank) hc
    have hnot := List.all_eq_true.1 wideBlanks_not_covered _ hmem
    rw [Bool.not_eq_true'] at hnot
    rw [hnot] at h
    cases h

/-! ## Small letters -/

theorem toLower_of_not_isAlpha {c : Char} (h : c.isAlpha = false) : c.toLower = c := by
  unfold Char.toLower
  split
  · next hupper =>
    have hcode : c.isAlpha =
        (decide (c.val ≥ 65 ∧ c.val ≤ 90) || (decide (c.val ≥ 97) && decide (c.val ≤ 122))) := rfl
    grind
  · rfl

theorem isBlank_of_isAlpha {c : Char} (h : c.isAlpha = true) : isBlank c = false :=
  isBlank_of_isWordChar (isWordChar_of_isAlpha h)

theorem isBlank_toLower (c : Char) : isBlank c.toLower = isBlank c := by
  by_cases h : c.isAlpha = true
  · rw [isBlank_of_isAlpha h, isBlank_of_isAlpha (by rw [isAlpha_toLower, h])]
  · rw [toLower_of_not_isAlpha (Bool.eq_false_iff.2 h)]

/-- What is no letter is the small letter of itself only. -/
theorem toLower_eq_iff {c d : Char} (hd : d.isAlpha = false) : c.toLower = d ↔ c = d := by
  by_cases h : c.isAlpha = true
  · constructor
    · rintro rfl
      rw [isAlpha_toLower, h] at hd
      cases hd
    · rintro rfl
      rw [h] at hd
      cases hd
  · rw [toLower_of_not_isAlpha (Bool.eq_false_iff.2 h)]

theorem dropBlankEnd_map_toLower (cs : List Char) :
    dropBlankEnd (cs.map Char.toLower) = (dropBlankEnd cs).map Char.toLower := by
  have hblank : isBlank ∘ Char.toLower = isBlank := funext isBlank_toLower
  rw [dropBlankEnd, dropBlankEnd, ← List.map_reverse, List.dropWhile_map, hblank, List.map_reverse]

theorem foldCase_trim (s : String) : foldCase (trim s) = trim (foldCase s) := by
  have hblank : isBlank ∘ Char.toLower = isBlank := funext isBlank_toLower
  simp only [trim, foldCase, String.toList_ofList]
  rw [List.dropWhile_map, hblank, dropBlankEnd_map_toLower]

end KeywordScope
