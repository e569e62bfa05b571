/-!
# Text for a terminal

A terminal does not show control characters, nor the sequences that begin with an escape: these set
how text looks, move the cursor, or hold a text that is not part of the page.

* `Terminal.bold`, `Terminal.heading`: text with the sequences that make it stand out.
* `Terminal.plain`: what a text shows, for a reader that is no terminal.
-/

namespace KeywordScope
namespace Terminal

/-- What the place in a text belongs to. -/
inductive Place where
  /-- Text that is shown. -/
  | page
  /-- A sequence of which only the escape was read. -/
  | escape
  /-- The signs between an escape and the character that ends the sequence. -/
  | selection
  /-- The numbers of a sequence that sets something, up to its name. -/
  | settings
  /-- The numbers in front of a message to the device. -/
  | header
  /-- A message, up to the mark of its end. -/
  | message
  /-- A title, up to a bell. -/
  | title
  deriving DecidableEq, Repr

/-- One of the bytes of the character in UTF-8 is the mark that ends a message. -/
def hasEndMark (c : Char) : Bool :=
  (String.utf8EncodeChar c).contains 0x9C

/-- The place behind a character. An escape begins a sequence anywhere, and two control characters
break off any sequence. -/
def Place.next (place : Place) (c : Char) : Place :=
  let within (first last : Char) : Bool := first ≤ c && c ≤ last
  if c = '\x1b' then .escape
  else if c = '\x18' || c = '\x1a' then .page
  else
    match place with
    | page => .page
    | escape =>
      if c = '[' then .settings
      else if c = ']' then .title
      else if c = 'P' then .header
      else if c = 'X' || c = '^' || c = '_' then .message
      else if within ' ' '/' then .selection
      else if within '0' '~' then .page
      else .escape
    | selection => if within '0' '~' then .page else .selection
    | settings => if within '@' '~' then .page else .settings
    | header => if within '@' '~' then .message else .header
    | message => if hasEndMark c then .page else .message
    | title => if c = '\x07' then .page else .title

/-- A control character that moves on in the text and is kept. -/
def isMove (c : Char) : Bool :=
  c = '\t' || c = '\n' || c = '\x0c' || c = '\r'

/-- A character of the page that is kept. -/
def isShown (c : Char) : Bool :=
  isMove c || (' ' ≤ c && c != '\x7f')

/-- Moves are kept even within these sequences. -/
def Place.keepsMoves : Place → Bool
  | page | escape | selection | settings => true
  | header | message | title => false

/-- What is shown from a place on. A move that is kept within a sequence interrupts it: what follows
is shown up to the next control character, where the sequence goes on. -/
def shown (place : Place) (interrupted : Bool) : List Char → List Char
  | [] => []
  | c :: cs =>
    if (interrupted || place = .page) && isShown c then
      c :: shown (if c.toNat < 0x80 then place else .page) interrupted cs
    else if place.keepsMoves && isMove c then c :: shown place true cs
    else shown (place.next c) false cs

/-- What a text shows. -/
def plain (text : String) : String :=
  String.ofList (shown .page false text.toList)

/-- Text that stands out. -/
def bold (text : String) : String :=
  "\x1b[1m" ++ text ++ "\x1b[0m"

/-- Text that stands out above others. -/
def heading (text : String) : String :=
  "\x1b[1m\x1b[4m" ++ text ++ "\x1b[0m"

end Terminal
end KeywordScope
