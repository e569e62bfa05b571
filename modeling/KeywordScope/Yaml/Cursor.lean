/-!
# Places in a YAML text

The structure of a document hangs on lines and columns, so that a reader knows both.

* `normalizeBreaks`, `isPermitted`: how the line breaks of a text are read, and which characters it
  may hold.
* `Yaml.Cursor`: what is left of a text, with the line, the column and the byte where it begins.
* `Cursor.skipGap`: the next place that is neither blank nor in a comment.
-/

namespace KeywordScope
namespace Yaml

/-- A character between words. -/
def isSpace (c : Char) : Bool :=
  c = ' ' || c = '\t'

/-- A character between lines. -/
def isBreak (c : Char) : Bool :=
  c = '\n' || c = '\u2028' || c = '\u2029'

/-- A character between words or lines. -/
def isGap (c : Char) : Bool :=
  isSpace c || isBreak c

/-- A text begins with a gap, or is at its end. -/
def atGap (cs : List Char) : Bool :=
  cs.head?.all isGap

/-- A text in which carriage returns and the control character for the next line are newlines. -/
def normalizeBreaks : List Char → List Char
  | '\r' :: '\n' :: cs => '\n' :: normalizeBreaks cs
  | '\r' :: cs => '\n' :: normalizeBreaks cs
  | '\u0085' :: cs => '\n' :: normalizeBreaks cs
  | c :: cs => c :: normalizeBreaks cs
  | [] => []

/-- A character that a text may hold: no control characters but tab and newline. -/
def isPermitted (c : Char) : Bool :=
  c = '\t' || c = '\n' || (' ' ≤ c && c ≤ '~') || ('\u00a0' ≤ c && c ≤ '\ufffd') ||
    0x10000 ≤ c.toNat

/-- What follows three equal characters that stand alone. -/
def afterMark? (mark : Char) : List Char → Option (List Char)
  | a :: b :: c :: rest =>
    if a = mark && b = mark && c = mark && atGap rest then some rest else none
  | _ => none

/-- A text begins with `---` or `...`, which at the beginning of a line marks the beginning or the
end of a document. -/
def atMark (cs : List Char) : Bool :=
  (afterMark? '-' cs).isSome || (afterMark? '.' cs).isSome

/-- What is left of a text, and where it begins. -/
structure Cursor where
  rest : List Char
  line : Nat := 0
  column : Nat := 0
  /-- How many bytes are in front of it. -/
  offset : Nat := 0

namespace Cursor

/-- The cursor moved over a character. -/
def pass (c : Cursor) (x : Char) : Cursor :=
  let c := { c with offset := c.offset + x.utf8Size }
  if isBreak x then { c with line := c.line + 1, column := 0 }
  else { c with column := c.column + 1 }

/-- The cursor where `rest` begins, which is an end part of what is left. -/
def seek (c : Cursor) (rest : List Char) : Cursor :=
  { (c.rest.take (c.rest.length - rest.length)).foldl pass c with rest }

/-- What follows blanks, comments and line breaks, and whether a key may begin there, which outside
of flow collections it may on a new line. Tabs are blanks only where no key may begin. A mark of
the byte order at the beginning of a line does not count. -/
def gap (flow : Bool) : (lineStart : Bool) → (keys : Bool) → List Char → List Char × Bool
  | _, keys, [] => ([], keys)
  | lineStart, keys, c :: cs =>
    if c = ' ' || (c = '\t' && (flow || !keys)) then gap flow false keys cs
    else if c = '#' then comment keys cs
    else if isBreak c then gap flow true (keys || !flow) cs
    else if c = '\ufeff' && lineStart then gap flow false keys cs
    else (c :: cs, keys)
where
  /-- The same from within a comment. -/
  comment (keys : Bool) : List Char → List Char × Bool
    | [] => ([], keys)
    | c :: cs => if isBreak c then gap flow true (keys || !flow) cs else comment keys cs

/-- The place of the next token, and whether a key may begin there. -/
def skipGap (flow keys : Bool) (c : Cursor) : Cursor × Bool :=
  let (rest, keys) := gap flow (c.column = 0) keys c.rest
  (c.seek rest, keys)

end Cursor

end Yaml
end KeywordScope
