import KeywordScope.Decimal.Reader
import KeywordScope.Text.Blank

/-!
# Sites of invocations

Where a keyword is used in the calling script, written as `file::line::column::text`.

* `Site.write`, `Site.read`: the text of a site, and the site of a text. Missing and malformed
  parts count as empty or zero.
-/

namespace KeywordScope

/-- A place in a calling script. Lines and columns fit in 32 bits. -/
structure Site where
  file : String := ""
  line : UInt32 := 0
  column : UInt32 := 0
  text : String := ""
  deriving DecidableEq, Repr

namespace Site

/-- The text of a site. -/
def write (site : Site) : String :=
  site.file ++ "::" ++ toString site.line ++ "::" ++ toString site.column ++ "::" ++ site.text

/-- The parts before and after the first `::`. -/
def splitColons? : List Char → Option (List Char × List Char)
  | [] => none
  | ':' :: ':' :: rest => some ([], rest)
  | c :: rest => (splitColons? rest).map fun (before, after) => (c :: before, after)

/-- The parts between the first `n` of the separators `::`, and the part behind them. -/
def splitParts : Nat → List Char → List (List Char)
  | 0, cs => [cs]
  | n + 1, cs =>
    match splitColons? cs with
    | none => [cs]
    | some (before, after) => before :: splitParts n after

/-- The number that a part writes, with blanks around it; zero if it writes none. -/
def readNumber (part : List Char) : UInt32 :=
  ((readNat? UInt32.size (trim (String.ofList part))).map UInt32.ofNat).getD 0

/-- The site that a text writes. -/
def read (text : String) : Site :=
  match splitParts 3 text.toList with
  | [] => {}
  | [file] => { file := String.ofList file }
  | [file, line] => { file := String.ofList file, line := readNumber line }
  | [file, line, column] =>
    { file := String.ofList file, line := readNumber line, column := readNumber column }
  | file :: line :: column :: text :: _ =>
    { file := String.ofList file
      line := readNumber line
      column := readNumber column
      text := String.ofList text }

end Site

end KeywordScope
