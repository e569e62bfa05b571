import KeywordScope.Source.Span
import KeywordScope.SyntaxError
import KeywordScope.Text.Blank

/-!
# Reading positions

* `Cursor`: what is left of a source, with the byte offset where it begins.
* `Consumed`, `Reached`: the result of a reader that started at a cursor, with the proof that it
  went forward, or at least not back. Loops of the parser end by these proofs.
* `Failure`: where reading stopped, and the cause if the place itself tells one.
* `Cursor.skipInline`, `Cursor.skipSeparators`, `Cursor.skipSpaces`: the three kinds of gaps.
-/

namespace KeywordScope
namespace Script

/-- What is left of a source, and the byte offset where it begins. -/
structure Cursor where
  offset : Nat
  rest : List Char
  deriving DecidableEq, Repr

/-- A value read from `c`, and the cursor behind it, which is further on. -/
structure Consumed (α : Type) (c : Cursor) where
  value : α
  next : Cursor
  shorter : next.rest.length < c.rest.length

/-- A value read from `c`, and the cursor behind it, which is not before `c`. -/
structure Reached (α : Type) (c : Cursor) where
  value : α
  next : Cursor
  notLonger : next.rest.length ≤ c.rest.length

/-- Reading stopped at `place`. Without a cause of its own, the place is an unexpected token, or
whatever the surroundings miss there. -/
structure Failure where
  place : Cursor
  cause? : Option SyntaxFault := none
  deriving DecidableEq, Repr

namespace Failure

/-- The failure, with a cause if it had none. -/
def within (cause : SyntaxFault) (failure : Failure) : Failure :=
  { failure with cause? := failure.cause? <|> some cause }

/-- The error to report: the line that begins at the place is the offending text. -/
def toError (source : String) (failure : Failure) : SyntaxError :=
  let node := dropBlankEnd (failure.place.rest.takeWhile (· ≠ '\n'))
  let start := failure.place.offset
  SyntaxError.locate source
    { fault := failure.cause?.getD .unexpectedToken
      node := String.ofList node
      span := ⟨start, start + utf8Length node⟩ }

end Failure

namespace Cursor

/-- The beginning of a source. -/
def start (source : String) : Cursor :=
  ⟨0, source.toList⟩

/-- The cursor where `rest` begins, which is an end part of what is left. -/
def seek (c : Cursor) (rest : List Char) : Cursor :=
  ⟨c.offset + utf8Length (c.rest.take (c.rest.length - rest.length)), rest⟩

@[simp]
theorem seek_rest (c : Cursor) (rest : List Char) : (c.seek rest).rest = rest := rfl

/-- The text from one cursor up to a later one. -/
def textTo (c d : Cursor) : String :=
  String.ofList (c.rest.take (c.rest.length - d.rest.length))

/-- The span from one cursor up to a later one. -/
def spanTo (c d : Cursor) : Span :=
  ⟨c.offset, d.offset⟩

/-- A statement may end here: at the end of the source, a line, a block or before a comment. -/
def atStatementEnd (c : Cursor) : Bool :=
  match c.rest with
  | [] => true
  | x :: _ => x == '\n' || x == ';' || x == '}' || x == '#'

/-- A stage may end here: where a statement may end, or at a `|`. -/
def atStageEnd (c : Cursor) : Bool :=
  c.atStatementEnd || c.rest.head? == some '|'

/-- Skips spaces, tabs, carriage returns, and backticks at the end of a line. -/
def skipInline : Cursor → Cursor
  | ⟨offset, rest⟩ => go offset rest
where
  go (offset : Nat) : List Char → Cursor
    | ' ' :: rest => go (offset + 1) rest
    | '\t' :: rest => go (offset + 1) rest
    | '\r' :: rest => go (offset + 1) rest
    | '\x60' :: '\r' :: '\n' :: rest => go (offset + 3) rest
    | '\x60' :: '\n' :: rest => go (offset + 2) rest
    | rest => ⟨offset, rest⟩

/-- Skips spaces, tabs, carriage returns and newlines. -/
def skipSpaces : Cursor → Cursor
  | ⟨offset, rest⟩ => go offset rest
where
  go (offset : Nat) : List Char → Cursor
    | ' ' :: rest => go (offset + 1) rest
    | '\t' :: rest => go (offset + 1) rest
    | '\r' :: rest => go (offset + 1) rest
    | '\n' :: rest => go (offset + 1) rest
    | rest => ⟨offset, rest⟩

/-- Skips what may stand between statements: spaces, newlines, semicolons and comments. -/
def skipSeparators : Cursor → Cursor
  | ⟨offset, rest⟩ => go offset rest
where
  go (offset : Nat) : List Char → Cursor
    | ' ' :: rest => go (offset + 1) rest
    | '\t' :: rest => go (offset + 1) rest
    | '\r' :: rest => go (offset + 1) rest
    | '\n' :: rest => go (offset + 1) rest
    | ';' :: rest => go (offset + 1) rest
    | '#' :: rest => comment (offset + 1) rest
    | rest => ⟨offset, rest⟩
  /-- The rest of a comment, up to the end of its line. -/
  comment (offset : Nat) : List Char → Cursor
    | [] => ⟨offset, []⟩
    | '\n' :: rest => go (offset + 1) rest
    | c :: rest => comment (offset + c.utf8Size) rest

private theorem skipInline_go_le (offset : Nat) (cs : List Char) :
    (skipInline.go offset cs).rest.length ≤ cs.length := by
  fun_induction skipInline.go offset cs <;> simp_all <;> omega

theorem skipInline_le (c : Cursor) : c.skipInline.rest.length ≤ c.rest.length :=
  skipInline_go_le c.offset c.rest

private theorem skipSpaces_go_le (offset : Nat) (cs : List Char) :
    (skipSpaces.go offset cs).rest.length ≤ cs.length := by
  fun_induction skipSpaces.go offset cs <;> simp_all <;> omega

theorem skipSpaces_le (c : Cursor) : c.skipSpaces.rest.length ≤ c.rest.length :=
  skipSpaces_go_le c.offset c.rest

private theorem skipSeparators_go_le (offset : Nat) (cs : List Char) :
    (skipSeparators.go offset cs).rest.length ≤ cs.length ∧
      (skipSeparators.comment offset cs).rest.length ≤ cs.length := by
  induction cs generalizing offset with
  | nil => simp [skipSeparators.go, skipSeparators.comment]
  | cons c cs ih =>
    have other (n : Nat) := Nat.le_succ_of_le (ih n).1
    have comment (n : Nat) := Nat.le_succ_of_le (ih n).2
    constructor
    · unfold skipSeparators.go
      split <;> simp_all
    · unfold skipSeparators.comment
      split <;> simp_all

theorem skipSeparators_le (c : Cursor) : c.skipSeparators.rest.length ≤ c.rest.length :=
  (skipSeparators_go_le c.offset c.rest).1

end Cursor

end Script
end KeywordScope
