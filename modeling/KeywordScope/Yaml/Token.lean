import KeywordScope.Yaml.Scalar

/-!
# Tokens of YAML

* `Token`: the marks and scalars of a text, with the beginnings and ends of its block collections.
* `Token.ofText?`: the tokens of a text, if it has the right marks in the right places.

A block collection begins where a key or an item stands further right than the collection around
it, and ends where a line begins further left. A key is known as such only from the `:` behind it,
so that a place where one may begin is kept until that is settled: the mark of the key, and of the
collection that it begins, are then put in at that place.
-/

namespace KeywordScope
namespace Yaml

/-- A part of a text that has a meaning of its own. -/
inductive Token where
  /-- The mark `---` before a document. -/
  | documentStart
  /-- The mark `...` behind a document. -/
  | documentEnd
  /-- A sequence in lines begins. -/
  | sequenceStart
  /-- A mapping in lines begins. -/
  | mappingStart
  /-- A collection in lines ends. -/
  | blockEnd
  /-- A bracket opens a sequence. -/
  | openBracket
  | closeBracket
  /-- A brace opens a mapping. -/
  | openBrace
  | closeBrace
  | comma
  /-- The mark of an item in lines. -/
  | item
  /-- What follows is a key. -/
  | key
  /-- What follows is a value. -/
  | value
  /-- A text. A plain scalar is written without quotes. -/
  | scalar (text : String) (plain : Bool)
  deriving DecidableEq, Repr

/-- How many bytes a key may have, with the gap between it and its mark. -/
def keyLimit : Nat := 1024

/-- A place where a key may have begun. -/
structure Candidate where
  /-- How many tokens are in front of it. -/
  index : Nat
  place : Cursor
  /-- Nothing but a key may begin there. -/
  isRequired : Bool

/-- What stood at a candidate can no longer be a key, which is short and stands on one line. -/
def Candidate.isPast (key : Candidate) (c : Cursor) : Bool :=
  key.place.line < c.line || key.place.offset + keyLimit < c.offset

/-- What is known of a text up to a place in it. -/
structure Lexer where
  cursor : Cursor
  /-- The tokens before it, the last one first. -/
  tokens : List Token := []
  /-- The columns of the block collections around it, the innermost first. -/
  columns : List Nat := []
  /-- A key may begin at the cursor. -/
  keys : Bool := true
  /-- Where a key may have begun within the innermost flow collection. -/
  key? : Option Candidate := none
  /-- Where keys may have begun around each of the flow collections, the innermost first. -/
  outer : List (Option Candidate) := []

namespace Lexer

/-- The cursor is in a flow collection. -/
def flow (s : Lexer) : Bool :=
  !s.outer.isEmpty

/-- The columns that belong to the innermost block collection begin here. -/
def indent (s : Lexer) : Nat :=
  s.columns.head?.elim 0 (· + 1)

/-- Adds a token. -/
def add (s : Lexer) (token : Token) : Lexer :=
  { s with tokens := token :: s.tokens }

/-- Puts in a token behind the first `index` ones. -/
def addAt (s : Lexer) (index : Nat) (token : Token) : Lexer :=
  let later := s.tokens.length - index
  { s with tokens := s.tokens.take later ++ token :: s.tokens.drop later }

/-- Begins a block collection at a column behind the first `index` tokens, if the column is further
right than the innermost one. -/
def openBlock (s : Lexer) (column index : Nat) (token : Token) : Lexer :=
  if s.flow || column < s.indent then s
  else { s.addAt index token with columns := column :: s.columns }

/-- Ends the block collections that satisfy a condition on their columns. -/
def closeBlocks (s : Lexer) (ends : Nat → Bool) : Lexer :=
  if s.flow then s
  else
    let ended := s.columns.takeWhile ends
    { s with
      tokens := ended.map (fun _ => Token.blockEnd) ++ s.tokens
      columns := s.columns.drop ended.length }

/-- Gives up the place of a key, unless there must be one. -/
def dropKey (s : Lexer) : Option Lexer :=
  if s.key?.any Candidate.isRequired then none else some { s with key? := none }

/-- Keeps the cursor as the place of a key, if one may begin there. -/
def keepKey (s : Lexer) : Option Lexer :=
  if s.keys then do
    let s ← s.dropKey
    let isRequired := !s.flow && s.columns.head? = some s.cursor.column
    return { s with key? := some ⟨s.tokens.length, s.cursor, isRequired⟩ }
  else some s

/-- Gives up a place of a key that is past. -/
def settle? (c : Cursor) : Option Candidate → Option (Option Candidate)
  | some key =>
    if key.isPast c then if key.isRequired then none else some none
    else some (some key)
  | none => some none

/-- The place of the next token, up to which keys and block collections are settled. -/
def advance (s : Lexer) : Option Lexer := do
  let (cursor, keys) := s.cursor.skipGap s.flow s.keys
  let key? ← settle? cursor s.key?
  let outer ← s.outer.mapM (settle? cursor)
  return { s with cursor, keys, key?, outer }.closeBlocks (cursor.column < ·)

/-- Moves the cursor behind a token. -/
def behind (s : Lexer) (rest : List Char) (keys : Bool) : Lexer :=
  { s with cursor := s.cursor.seek rest, keys }

/-- A mark `---` or `...`, which ends all block collections. -/
def takeMark (s : Lexer) (token : Token) (rest : List Char) : Option Lexer := do
  let s ← (s.closeBlocks fun _ => true).dropKey
  return (s.add token).behind rest false

/-- A bracket or brace that opens a flow collection, which may be a key itself. -/
def takeOpening (s : Lexer) (token : Token) (rest : List Char) : Option Lexer := do
  let s ← s.keepKey
  return { s.add token with outer := s.key? :: s.outer, key? := none }.behind rest true

/-- A bracket or brace that closes a flow collection. -/
def takeClosing (s : Lexer) (token : Token) (rest : List Char) : Option Lexer := do
  let s ← s.dropKey
  let s := match s.outer with
    | key? :: outer => { s with key?, outer }
    | [] => s
  return (s.add token).behind rest false

/-- A comma. -/
def takeComma (s : Lexer) (rest : List Char) : Option Lexer := do
  let s ← s.dropKey
  return (s.add .comma).behind rest true

/-- The mark of an item, which may only stand where a key could begin. -/
def takeItem (s : Lexer) (rest : List Char) : Option Lexer := do
  guard (s.flow || s.keys)
  let s ← (s.openBlock s.cursor.column s.tokens.length .sequenceStart).dropKey
  return (s.add .item).behind rest true

/-- The mark of a key that need not be short. -/
def takeKey (s : Lexer) (rest : List Char) : Option Lexer := do
  guard (s.flow || s.keys)
  let s ← (s.openBlock s.cursor.column s.tokens.length .mappingStart).dropKey
  return (s.add .key).behind rest (!s.flow)

/-- The mark of a value. What stood at the place of a key is now known to be one. -/
def takeValue (s : Lexer) (rest : List Char) : Option Lexer :=
  match s.key? with
  | some key =>
    let s := (s.addAt key.index .key).openBlock key.place.column key.index .mappingStart
    some (({ s with key? := none }.add .value).behind rest false)
  | none => do
    guard (s.flow || s.keys)
    let s := s.openBlock s.cursor.column s.tokens.length .mappingStart
    return (s.add .value).behind rest (!s.flow)

/-- A scalar in quotes. -/
def takeQuoted (s : Lexer) (read : Option (List Char × List Char)) : Option Lexer := do
  let s ← s.keepKey
  let (text, rest) ← read
  return (s.add (.scalar (String.ofList text) false)).behind rest false

/-- A scalar without quotes. Behind a line break, a key may begin. -/
def takePlain (s : Lexer) : Option Lexer := do
  let s ← s.keepKey
  let (text, rest, newLine) ← Scalar.plain? s.flow s.indent [] s.cursor.column s.cursor.rest
  return (s.add (.scalar (String.ofList text) true)).behind rest newLine

/-- Takes the token at the cursor. -/
def take (s : Lexer) : Option Lexer :=
  let mark? (c : Char) := if s.cursor.column = 0 then afterMark? c s.cursor.rest else none
  match mark? '-', mark? '.', s.cursor.rest with
  | some rest, _, _ => s.takeMark .documentStart rest
  | _, some rest, _ => s.takeMark .documentEnd rest
  | _, _, '[' :: cs => s.takeOpening .openBracket cs
  | _, _, '{' :: cs => s.takeOpening .openBrace cs
  | _, _, ']' :: cs => s.takeClosing .closeBracket cs
  | _, _, '}' :: cs => s.takeClosing .closeBrace cs
  | _, _, ',' :: cs => s.takeComma cs
  | _, _, '\x27' :: cs => s.takeQuoted (Scalar.single? [] cs)
  | _, _, '\x22' :: cs => s.takeQuoted (Scalar.double? Scalar.fold [] cs)
  | _, _, c :: cs =>
    if c = '-' && atGap cs then s.takeItem cs
    else if c = '?' && (s.flow || atGap cs) then s.takeKey cs
    else if c = ':' && (s.flow || atGap cs) then s.takeValue cs
    else if Scalar.mayBeginPlain s.flow c cs then s.takePlain
    else none
  | _, _, [] => none

/-- The tokens at the end of a text. -/
def finish (s : Lexer) : Option (List Token) := do
  let s ← (s.closeBlocks fun _ => true).dropKey
  return s.tokens.reverse

/-- All tokens, in at most so many steps. -/
def run : Nat → Lexer → Option (List Token)
  | 0, _ => none
  | fuel + 1, s => do
    let s ← s.advance
    if s.cursor.rest.isEmpty then s.finish else run fuel (← s.take)

end Lexer

/-- The tokens of a text. Each is at least one character long. -/
def Token.ofText? (text : String) : Option (List Token) := do
  let cs := normalizeBreaks text.toList
  guard (cs.all isPermitted)
  Lexer.run (cs.length + 1) { cursor := { rest := cs } }

end Yaml
end KeywordScope
