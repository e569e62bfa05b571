import KeywordScope.Text.Alphabetic
import KeywordScope.Text.Mark
import KeywordScope.Text.Number

/-!
# Classes of characters

* `isAlphanumeric`: letters and numbers of every script.
* `isWordChar`: the characters of identifiers: letters, marks, decimal digits, connecting
  punctuation and the two join controls, as far as version 16 of Unicode has them.

Both agree with the usual ASCII classes below U+0080, and read the tables of `UnicodeData` above.
-/

namespace KeywordScope

namespace UnicodeData

/-- The code point lies in one of the intervals. -/
def covers (table : List (Nat × Nat)) (n : Nat) : Bool :=
  table.any fun (low, high) => low ≤ n && n ≤ high

/-- The code points of the category `Pc`. -/
def connector : List (Nat × Nat) :=
  [(0x5F, 0x5F), (0x203F, 0x2040), (0x2054, 0x2054), (0xFE33, 0xFE34), (0xFE4D, 0xFE4F),
  (0xFF3F, 0xFF3F)]

/-- The code points with the property `Join_Control`. -/
def joinControl : List (Nat × Nat) :=
  [(0x200C, 0x200D)]

/-- The letters, marks and digits that are new in version 17. -/
def latest : List (Nat × Nat) :=
  [(0x88F, 0x88F), (0xC5C, 0xC5C), (0xCDC, 0xCDC), (0x1ACF, 0x1ADD), (0x1AE0, 0x1AEB),
  (0xA7CE, 0xA7CF), (0xA7D2, 0xA7D2), (0xA7D4, 0xA7D4), (0xA7F1, 0xA7F1), (0x10940, 0x10959),
  (0x10EC5, 0x10EC7), (0x10EFA, 0x10EFB), (0x11B60, 0x11B67), (0x11DB0, 0x11DDB),
  (0x11DE0, 0x11DE9), (0x16EA0, 0x16EB8), (0x16EBB, 0x16ED3), (0x16FF2, 0x16FF6),
  (0x187F8, 0x187FF), (0x18D09, 0x18D1E), (0x18D80, 0x18DF2), (0x1E6C0, 0x1E6DE),
  (0x1E6E0, 0x1E6F5), (0x1E6FE, 0x1E6FF), (0x2B73A, 0x2B73F), (0x2CEA2, 0x2CEAD),
  (0x323B0, 0x33479)]

end UnicodeData

open UnicodeData

/-- The character is a letter or a number of some script. -/
def isAlphanumeric (c : Char) : Bool :=
  if c.toNat < 0x80 then c.isAlphanum
  else covers alphabetic c.toNat || covers decimalDigit c.toNat || covers otherNumber c.toNat

/-- The character may stand in an identifier. -/
def isWordChar (c : Char) : Bool :=
  if c.toNat < 0x80 then c.isAlphanum || c == '_'
  else (covers alphabetic c.toNat || covers mark c.toNat || covers decimalDigit c.toNat ||
    covers connector c.toNat || covers joinControl c.toNat) && !covers latest c.toNat

end KeywordScope
