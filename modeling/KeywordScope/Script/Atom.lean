import KeywordScope.Script.Cursor
import KeywordScope.Script.Group
import KeywordScope.Script.Quoted
import KeywordScope.Script.Tree
import KeywordScope.Text.CharClass

/-!
# Atoms

The elements of a command that hold no statements: quoted strings, groups, variables, numbers and
words.

* `Atom.read`: the atom at the front of what is left. The kinds are tried in the order above; a
  word is what remains.
* `Atom.splitVariable?`, `Atom.splitNumber?`, `Atom.splitWord?`: the lexemes, as the characters
  taken and the rest.
-/

namespace KeywordScope
namespace Script
namespace Atom

/-- The character may stand in a word. -/
def isWordPart (c : Char) : Bool :=
  !isBlank c && c != '{' && c != '}' && c != '(' && c != ')' && c != ';' && c != '|' &&
    c != '\x22' && c != '\x27'

/-- The character may stand in the name of a variable. -/
def isVariablePart (c : Char) : Bool :=
  isAlphanumeric c || c == '_' || c == ':' || c == '?'

/-- The longest nonempty run of characters of a class, and what follows it. -/
def splitRun? (p : Char → Bool) (cs : List Char) : Option (List Char × List Char) :=
  match cs with
  | c :: rest => if p c then some (c :: rest.takeWhile p, rest.dropWhile p) else none
  | [] => none

/-- The name of the variable at the front of a text, without its `$`, and what follows. -/
def splitVariable? : List Char → Option (List Char × List Char)
  | '$' :: rest => splitRun? isVariablePart rest
  | _ => none

/-- A number may end before `cs`; elsewhere its digits belong to a word. -/
def endsNumber (cs : List Char) : Bool :=
  match cs with
  | [] => true
  | '\x60' :: '\n' :: _ => true
  | '\x60' :: '\r' :: '\n' :: _ => true
  | c :: _ =>
    c == ' ' || c == '\t' || c == '\r' || c == '\n' || c == ';' || c == '}' || c == '|' || c == '#'

/-- The point and the digits after it, if both are there. -/
def splitFraction (cs : List Char) : List Char × List Char :=
  match cs with
  | '.' :: rest =>
    match splitRun? Char.isDigit rest with
    | some (digits, rest) => ('.' :: digits, rest)
    | none => ([], cs)
  | _ => ([], cs)

/-- The sign of a number, if it has one. -/
def splitSign (cs : List Char) : List Char × List Char :=
  match cs with
  | '-' :: rest => (['-'], rest)
  | _ => ([], cs)

/-- The number at the front of a text, and what follows: digits with an optional sign and
fraction, up to a place where a number may end. -/
def splitNumber? (cs : List Char) : Option (List Char × List Char) :=
  match splitRun? Char.isDigit (splitSign cs).2 with
  | none => none
  | some (digits, rest) =>
    if endsNumber (splitFraction rest).2 then
      some ((splitSign cs).1 ++ digits ++ (splitFraction rest).1, (splitFraction rest).2)
    else none

/-- The word at the front of a text, and what follows. A word does not begin with `#`. -/
def splitWord? (cs : List Char) : Option (List Char × List Char) :=
  match cs with
  | '#' :: _ => none
  | _ => splitRun? isWordPart cs

theorem splitRun?_eq {p : Char → Bool} {cs taken rest : List Char}
    (h : splitRun? p cs = some (taken, rest)) : taken ≠ [] ∧ taken ++ rest = cs := by
  unfold splitRun? at h
  split at h
  · split at h
    · obtain ⟨rfl, rfl⟩ := by simpa using h
      simp
    · simp at h
  · simp at h

theorem splitVariable?_eq {cs taken rest : List Char} (h : splitVariable? cs = some (taken, rest)) :
    taken ≠ [] ∧ '$' :: taken ++ rest = cs := by
  unfold splitVariable? at h
  split at h
  · have := splitRun?_eq h
    simp_all
  · simp at h

theorem splitSign_eq (cs : List Char) : (splitSign cs).1 ++ (splitSign cs).2 = cs := by
  unfold splitSign
  split <;> simp

theorem splitFraction_eq (cs : List Char) : (splitFraction cs).1 ++ (splitFraction cs).2 = cs := by
  unfold splitFraction
  split
  · split
    · next h => simp [(splitRun?_eq h).2]
    · simp
  · simp

theorem splitNumber?_eq {cs taken rest : List Char} (h : splitNumber? cs = some (taken, rest)) :
    taken ≠ [] ∧ taken ++ rest = cs := by
  unfold splitNumber? at h
  have sign := splitSign_eq cs
  split at h
  · simp at h
  · next digits after run =>
    have run := splitRun?_eq run
    have fraction := splitFraction_eq after
    split at h
    · obtain ⟨rfl, rfl⟩ := by simpa using h
      simp [run.1, fraction, run.2, sign]
    · simp at h

theorem splitWord?_eq {cs taken rest : List Char} (h : splitWord? cs = some (taken, rest)) :
    taken ≠ [] ∧ taken ++ rest = cs := by
  unfold splitWord? at h
  split at h
  · simp at h
  · exact splitRun?_eq h

theorem splitVariable?_shorter {cs taken rest : List Char}
    (h : splitVariable? cs = some (taken, rest)) : rest.length < cs.length := by
  rw [← (splitVariable?_eq h).2, List.length_append, List.length_cons]
  omega

theorem splitNumber?_shorter {cs taken rest : List Char}
    (h : splitNumber? cs = some (taken, rest)) : rest.length < cs.length := by
  rw [← (splitNumber?_eq h).2]
  simpa using List.length_pos_iff.2 (splitNumber?_eq h).1

theorem splitWord?_shorter {cs taken rest : List Char} (h : splitWord? cs = some (taken, rest)) :
    rest.length < cs.length := by
  rw [← (splitWord?_eq h).2]
  simpa using List.length_pos_iff.2 (splitWord?_eq h).1

/-- The element made of `text` and its span, once the text from `c` up to `rest` is taken. -/
def consume (c : Cursor) (rest : List Char) (shorter : rest.length < c.rest.length)
    (element : String → Span → Element) : Consumed Element c :=
  let next := c.seek rest
  ⟨element (c.textTo next) (c.spanTo next), next, shorter⟩

/-- The atom at the front of what is left. -/
def read (c : Cursor) : Except Failure (Consumed Element c) :=
  if c.rest.head? = some '\x22' ∨ c.rest.head? = some '\x27' then
    match h : Quoted.read? c.rest with
    | some (value, rest) =>
      .ok (consume c rest (Quoted.read?_shorter h) (.quoted (String.ofList value)))
    | none =>
      -- A double quote is reported where it stands, a single one where the source ends.
      .error ⟨if c.rest.head? = some '\x22' then c else c.seek [], some .unclosedString⟩
  else
    match h : Group.read? c with
    | some (_, .error failure) => .error failure
    | some (isTable, .ok d) =>
      .ok (consume c d.rest (Group.read?_shorter h)
        (if isTable then .hashtable else .subExpression))
    | none =>
      match h : splitVariable? c.rest with
      | some (name, rest) =>
        .ok (consume c rest (splitVariable?_shorter h) (.variable (String.ofList name)))
      | none =>
        if c.rest.head? = some '$' then .error ⟨c, some .strayDollar⟩
        else
          match h : splitNumber? c.rest with
          | some (_, rest) => .ok (consume c rest (splitNumber?_shorter h) .number)
          | none =>
            match h : splitWord? c.rest with
            | some (_, rest) => .ok (consume c rest (splitWord?_shorter h) .bareword)
            | none => .error { place := c }

end Atom
end Script
end KeywordScope
