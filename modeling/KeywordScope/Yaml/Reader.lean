import KeywordScope.Yaml.Basic
import KeywordScope.Yaml.Token

/-!
# Reading YAML

* `Yaml.ofTokens?`: the document that tokens make up, if they do.
* `Yaml.parse?`: the document that a text is, if it is one.

A key, a value or an item without anything in it is empty. The readers take a bound on the number
of steps, which `ofTokens?` computes from the number of tokens.
-/

namespace KeywordScope
namespace Yaml

/-- Nothing stands in front of such a token within a collection in lines. -/
def Token.endsBlockPart : Token → Bool
  | .key | .value | .blockEnd => true
  | _ => false

/-- Nothing stands in front of such a token within a collection in brackets or braces. -/
def Token.endsFlowPart : Token → Bool
  | .comma | .closeBracket | .closeBrace => true
  | _ => false

/-- What follows the comma behind a part of a flow collection. -/
def afterComma (first : Bool) (closing : Token) (tokens : List Token) : Option (List Token) :=
  if first || tokens.head? = some closing then some tokens
  else match tokens with
    | .comma :: rest => some rest
    | _ => none

mutual

/-- A part of a document. In lines it may be a block collection, and with `level` also a sequence at
the column of the mapping around it. -/
def readNode (lines level : Bool) : Nat → List Token → Option (Yaml × List Token)
  | 0, _ => none
  | fuel + 1, tokens =>
    match tokens with
    | .scalar text plain :: rest => some (.scalar text plain, rest)
    | .openBracket :: rest => readFlowItems fuel [] rest
    | .openBrace :: rest => readFlowEntries fuel [] rest
    | .sequenceStart :: rest => if lines then readItems false fuel [] rest else none
    | .mappingStart :: rest => if lines then readEntries fuel [] rest else none
    | .item :: _ => if level then readItems true fuel [] tokens else none
    | _ => none

/-- A part of a document, or nothing in front of a token that `ends` it. -/
def readPart (lines level : Bool) (ends : Token → Bool) :
    Nat → List Token → Option (Yaml × List Token)
  | 0, _ => none
  | fuel + 1, tokens =>
    if tokens.head?.any ends then some (empty, tokens) else readNode lines level fuel tokens

/-- The further items of a sequence in lines. With `level`, it has no end of its own. -/
def readItems (level : Bool) : Nat → List Yaml → List Token → Option (Yaml × List Token)
  | 0, _, _ => none
  | fuel + 1, items, .item :: rest => do
    let ends (token : Token) :=
      token = .item || token = .blockEnd || (level && token.endsBlockPart)
    let (item, rest) ← readPart true false ends fuel rest
    readItems level fuel (items ++ [item]) rest
  | _ + 1, items, tokens =>
    if level then some (.sequence items, tokens)
    else match tokens with
      | .blockEnd :: rest => some (.sequence items, rest)
      | _ => none

/-- The further entries of a mapping in lines. -/
def readEntries : Nat → List (Yaml × Yaml) → List Token → Option (Yaml × List Token)
  | 0, _, _ => none
  | fuel + 1, entries, .key :: rest => do
    let (key, rest) ← readPart true true Token.endsBlockPart fuel rest
    let (value, rest) ← match rest with
      | .value :: rest => readPart true true Token.endsBlockPart fuel rest
      | _ => some (empty, rest)
    readEntries fuel (entries ++ [(key, value)]) rest
  | _ + 1, entries, .blockEnd :: rest => some (.mapping entries, rest)
  | _ + 1, _, _ => none

/-- The value behind a key in a flow collection. -/
def readFlowValue : Nat → List Token → Option (Yaml × List Token)
  | 0, _ => none
  | fuel + 1, .value :: rest => readPart false false Token.endsFlowPart fuel rest
  | _ + 1, tokens => some (empty, tokens)

/-- The further items of a sequence in brackets. A key with its value is an item of its own; a
marked key without anything in it also takes up the token behind it. -/
def readFlowItems : Nat → List Yaml → List Token → Option (Yaml × List Token)
  | 0, _, _ => none
  | fuel + 1, items, tokens => do
    let tokens ← afterComma items.isEmpty .closeBracket tokens
    match tokens with
    | .closeBracket :: rest => some (.sequence items, rest)
    | .key :: rest => do
      let (key, rest) ←
        if rest.head?.any (fun token => token = .value || token.endsFlowPart) then
          some (empty, rest.tail)
        else readNode false false fuel rest
      let (value, rest) ← readFlowValue fuel rest
      readFlowItems fuel (items ++ [.mapping [(key, value)]]) rest
    | _ => do
      let (item, rest) ← readNode false false fuel tokens
      readFlowItems fuel (items ++ [item]) rest

/-- The further entries of a mapping in braces. A key alone has an empty value. -/
def readFlowEntries : Nat → List (Yaml × Yaml) → List Token → Option (Yaml × List Token)
  | 0, _, _ => none
  | fuel + 1, entries, tokens => do
    let tokens ← afterComma entries.isEmpty .closeBrace tokens
    match tokens with
    | .closeBrace :: rest => some (.mapping entries, rest)
    | .key :: rest => do
      let ends (token : Token) := token = .value || token.endsFlowPart
      let (key, rest) ← readPart false false ends fuel rest
      let (value, rest) ← readFlowValue fuel rest
      readFlowEntries fuel (entries ++ [(key, value)]) rest
    | _ => do
      let (key, rest) ← readNode false false fuel tokens
      readFlowEntries fuel (entries ++ [(key, empty)]) rest

end

/-- The document that tokens make up. No tokens are an empty document, and there may not be several
documents. -/
def ofTokens? (tokens : List Token) : Option Yaml := do
  if tokens.isEmpty then return empty
  let fuel := 3 * tokens.length + 3
  let (document, rest) ← match tokens with
    | .documentStart :: rest =>
      match rest with
      | [] | .documentStart :: _ | .documentEnd :: _ => some (empty, rest)
      | _ => readNode true false fuel rest
    | _ => readNode true false fuel tokens
  guard (rest.all (· = .documentEnd))
  return document

/-- The document that a text is. -/
def parse? (text : String) : Option Yaml :=
  (Token.ofText? text).bind ofTokens?

end Yaml
end KeywordScope
