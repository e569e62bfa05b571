import KeywordScope.Yaml.Cursor

/-!
# Scalars

A scalar may go on over several lines. One line break then stands for a space, and of more line
breaks all but the first are kept; blanks around them do not count.

* `Scalar.single?`, `Scalar.double?`, `Scalar.plain?`: the text of a scalar in single or double
  quotes or without any, and what follows it.
-/

namespace KeywordScope
namespace Yaml
namespace Scalar

/-- What a gap within a scalar stands for. -/
def fold (gap : List Char) : List Char :=
  match gap.filter isBreak with
  | [] => gap
  | ['\n'] => [' ']
  | '\n' :: breaks => breaks
  | breaks => breaks

/-- What a gap behind an escaped line break stands for. -/
def foldEscaped (gap : List Char) : List Char :=
  gap.filter isBreak

/-- Adds to the beginning of what was read. -/
def prepend (front : List Char) (read : Option (List Char × List Char)) :
    Option (List Char × List Char) :=
  read.map fun (value, rest) => (front ++ value, rest)

/-- The text in single quotes from behind the first one, after a gap. A quote is written twice. -/
def single? (gap : List Char) : List Char → Option (List Char × List Char)
  | [] => none
  | '\x27' :: '\x27' :: cs => prepend (fold gap ++ ['\x27']) (single? [] cs)
  | '\x27' :: cs => some (fold gap, cs)
  | c :: cs =>
    if isBreak c && atMark cs then none
    else if isGap c then single? (gap ++ [c]) cs
    else prepend (fold gap ++ [c]) (single? [] cs)

/-- The character that one letter behind a backslash stands for. -/
def escape? : Char → Option Char
  | '0' => some '\x00'
  | 'a' => some '\x07'
  | 'b' => some '\x08'
  | 't' => some '\t'
  | '\t' => some '\t'
  | 'n' => some '\n'
  | 'v' => some '\x0b'
  | 'f' => some '\x0c'
  | 'r' => some '\r'
  | 'e' => some '\x1b'
  | ' ' => some ' '
  | '\x22' => some '\x22'
  | '/' => some '/'
  | '\\' => some '\\'
  | 'N' => some '\u0085'
  | '_' => some '\u00a0'
  | 'L' => some '\u2028'
  | 'P' => some '\u2029'
  | _ => none

/-- The value of a hexadecimal digit. -/
def hexDigit? (c : Char) : Option Nat :=
  if c.isDigit then some (c.toNat - '0'.toNat)
  else if 'a' ≤ c && c ≤ 'f' then some (c.toNat - 'a'.toNat + 10)
  else if 'A' ≤ c && c ≤ 'F' then some (c.toNat - 'A'.toNat + 10)
  else none

/-- The character that a code in hexadecimal digits stands for. -/
def coded? (digits : List Char) : Option Char := do
  let code ← digits.foldlM (fun n c => (hexDigit? c).map (16 * n + ·)) 0
  if h : code.isValidChar then some (Char.ofNatAux code h) else none

/-- The text in double quotes from behind the first one, after a gap that `joined` turns into
text. A backslash begins an escape, and a line break behind it does not count. -/
def double? (joined : List Char → List Char) (gap : List Char) :
    List Char → Option (List Char × List Char)
  | [] => none
  | '\x22' :: cs => some (joined gap, cs)
  | '\\' :: 'x' :: a :: b :: cs => do
    let c ← coded? [a, b]
    prepend (joined gap ++ [c]) (double? fold [] cs)
  | '\\' :: 'u' :: a :: b :: c :: d :: cs => do
    let c ← coded? [a, b, c, d]
    prepend (joined gap ++ [c]) (double? fold [] cs)
  | '\\' :: 'U' :: a :: b :: c :: d :: e :: f :: g :: h :: cs => do
    let c ← coded? [a, b, c, d, e, f, g, h]
    prepend (joined gap ++ [c]) (double? fold [] cs)
  | '\\' :: c :: cs =>
    if isBreak c then
      if atMark cs then none else prepend (joined gap) (double? foldEscaped [] cs)
    else do
      let c ← escape? c
      prepend (joined gap ++ [c]) (double? fold [] cs)
  | c :: cs =>
    if isBreak c && atMark cs then none
    else if isGap c then double? joined (gap ++ [c]) cs
    else prepend (joined gap ++ [c]) (double? fold [] cs)

/-- A character that separates the parts of a flow collection. -/
def isFlowIndicator (c : Char) : Bool :=
  c = ',' || c = '[' || c = ']' || c = '{' || c = '}'

/-- A plain scalar may begin with `c` when `cs` follows. -/
def mayBeginPlain (flow : Bool) (c : Char) (cs : List Char) : Bool :=
  if c = '-' then !atGap cs
  else if c = '?' || c = ':' then !flow && !atGap cs
  else !(isFlowIndicator c || isGap c ||
    ['#', '&', '*', '!', '|', '>', '\x27', '\x22', '%', '@', '\x60'].contains c)

/-- The text of a plain scalar after a gap, at a column, what follows the gap behind it, and whether
that gap has a line break. The scalar ends at a comment, at a `:` before a gap, at a mark of a
document, where a line is indented less than `indent`, and within a flow collection at its
separators. No tab may stand in less than this indentation. -/
def plain? (flow : Bool) (indent : Nat) (gap : List Char) (column : Nat) :
    List Char → Option (List Char × List Char × Bool)
  | [] => some ([], [], gap.any isBreak)
  | c :: cs =>
    let newLine := gap.any isBreak
    if isBreak c then plain? flow indent (gap ++ [c]) 0 cs
    else if isSpace c then
      if c = '\t' && newLine && column < indent then none
      else plain? flow indent (gap ++ [c]) (column + 1) cs
    else if !gap.isEmpty && (c = '#' || (!flow && column < indent) ||
        (column = 0 && atMark (c :: cs))) then some ([], c :: cs, newLine)
    else if flow && c = ':' && cs.head?.any (fun d => d = '?' || isFlowIndicator d) then none
    else if (c = ':' && atGap cs) || (flow && isFlowIndicator c) then some ([], c :: cs, newLine)
    else (plain? flow indent [] (column + 1) cs).map fun (text, behind) =>
      (fold gap ++ c :: text, behind)

end Scalar
end Yaml
end KeywordScope
