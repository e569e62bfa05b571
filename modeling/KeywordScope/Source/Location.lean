import KeywordScope.Source.Span

/-!
# Lines and columns

Places in a source text as people count them: lines and columns start at one, a newline ends its
line, and every other character takes one column. Both are counted in 32 bits.

* `Position.ofOffset`: the position of a byte offset.
* `Location.ofSpan`: the positions of both ends of a span.
-/

namespace KeywordScope

/-- The number of a line or a column counts as a natural number. -/
instance countToNat : CoeOut UInt32 Nat := ⟨UInt32.toNat⟩

/-- A line and a column, both counted from one. A count that no longer fits in 32 bits starts over
at zero. -/
structure Position where
  line : UInt32
  column : UInt32
  deriving DecidableEq, Repr

namespace Position

/-- Where a text begins. -/
def first : Position := ⟨1, 1⟩

/-- The position after a character. -/
def next (p : Position) (c : Char) : Position :=
  if c = '\n' then ⟨p.line + 1, 1⟩ else ⟨p.line, p.column + 1⟩

/-- The position reached from `p` once the characters that begin in the next `bytes` bytes are
passed. -/
def advance (p : Position) : List Char → Nat → Position
  | [], _ => p
  | c :: rest, bytes => if bytes = 0 then p else (p.next c).advance rest (bytes - c.utf8Size)

/-- The position of a byte offset of the source. An offset past the end stands for the end, one
inside a character for the character's end. -/
def ofOffset (source : String) (offset : Nat) : Position :=
  first.advance source.toList offset

end Position

/-- The positions where a piece of source text starts and stops. -/
structure Location where
  start : Position
  stop : Position
  deriving DecidableEq, Repr

namespace Location

/-- The location of a span of the source. -/
def ofSpan (source : String) (span : Span) : Location :=
  ⟨.ofOffset source span.start, .ofOffset source span.stop⟩

/-- How messages name a location: by the place where it starts. -/
def describe (location : Location) : String :=
  "line " ++ toString location.start.line ++ ", column " ++ toString location.start.column

end Location

end KeywordScope
