import KeywordScope.Script.Assembly
import KeywordScope.Script.Atom

/-!
# Reading a script

A statement is an assignment or a pipeline, and ends at a newline, a semicolon, a closing brace or
a comment. A pipeline has one or more stages joined by `|`; a stage that begins with a word goes
on with further elements. A backtick at the end of a line continues the statement.

* `parse`: the tree of a whole source, or the error at the first place where reading fails.
* `readStatements`, `readStatement`, `readStages`, `readStage`, `readElements`, `readElement`: the
  readers for each level of the tree. Each goes forward, so that they end on every source.
-/

namespace KeywordScope
namespace Script

/-- The target of the assignment that begins here, and the place of its value. -/
def assignment? (c : Cursor) : Option (String × Cursor) :=
  match Atom.splitVariable? c.rest with
  | none => none
  | some (name, rest) =>
    let d := (c.seek rest).skipInline
    match d.rest with
    | '=' :: '=' :: _ => none
    | '=' :: rest => some (String.ofList name, (d.seek rest).skipInline)
    | _ => none

/-- The place of the next stage, if a `|` comes next. -/
def pipe? (c : Cursor) : Option Cursor :=
  let d := c.skipInline
  match d.rest with
  | '|' :: rest => some (d.seek rest).skipSpaces
  | _ => none

theorem assignment?_shorter {c d : Cursor} {target : String} (h : assignment? c = some (target, d)) :
    d.rest.length < c.rest.length := by
  unfold assignment? at h
  split at h
  · simp at h
  · next name rest hv =>
    have lexeme := Atom.splitVariable?_shorter hv
    have gap := Cursor.skipInline_le (c.seek rest)
    simp only at h
    split at h
    · simp at h
    · next rest' _ he =>
      obtain ⟨_, rfl⟩ := by simpa using h
      have value := Cursor.skipInline_le ((c.seek rest).skipInline.seek rest')
      simp_all
      omega
    · simp at h

theorem pipe?_shorter {c d : Cursor} (h : pipe? c = some d) : d.rest.length < c.rest.length := by
  unfold pipe? at h
  have gap := Cursor.skipInline_le c
  simp only at h
  split at h
  · next rest he =>
    obtain rfl := by simpa using h
    have spaces := Cursor.skipSpaces_le (c.skipInline.seek rest)
    simp_all
    omega
  · simp at h

mutual

/-- The statements up to the end of the source or of the block. -/
def readStatements (c : Cursor) : Except Failure (Reached (List Statement) c) :=
  if c.rest = [] ∨ c.rest.head? = some '}' then
    .ok ⟨[], c, Nat.le_refl _⟩
  else
    match readStatement c with
    | .error failure => .error failure
    | .ok ⟨statement, d, _⟩ =>
      have := d.skipInline_le
      have := d.skipInline.skipSeparators_le
      if d.skipInline.atStatementEnd then
        match readStatements d.skipInline.skipSeparators with
        | .error failure => .error failure
        | .ok ⟨statements, e, _⟩ => .ok ⟨statement :: statements, e, by omega⟩
      else .error ⟨d.skipInline, some .unexpectedToken⟩
termination_by 8 * c.rest.length + 5

/-- An assignment, or a pipeline. -/
def readStatement (c : Cursor) : Except Failure (Consumed Statement c) :=
  match h : assignment? c with
  | some (target, valueStart) =>
    have := assignment?_shorter h
    match readElements valueStart with
    | .error failure => .error failure
    | .ok ⟨[], _, _⟩ => .error ⟨valueStart, some .missingValue⟩
    | .ok ⟨_ :: _, d, _⟩ =>
      .ok ⟨.assignment target (valueStart.textTo d) (c.spanTo d), d, by omega⟩
  | none =>
    match readStage c with
    | .error failure => .error failure
    | .ok ⟨first, d, _⟩ =>
      match readStages d with
      | .error failure => .error failure
      | .ok ⟨more, e, _⟩ => .ok ⟨.ofStages (first :: more) (c.spanTo e), e, by omega⟩
termination_by 8 * c.rest.length + 4

/-- The further stages of a pipeline. After a `|` there has to be one. -/
def readStages (c : Cursor) : Except Failure (Reached (List Stage) c) :=
  match h : pipe? c with
  | none => .ok ⟨[], c, Nat.le_refl _⟩
  | some d =>
    have := pipe?_shorter h
    match readStage d with
    | .error failure => .error (failure.within .missingStage)
    | .ok ⟨stage, e, _⟩ =>
      match readStages e with
      | .error failure => .error failure
      | .ok ⟨stages, f, _⟩ => .ok ⟨stage :: stages, f, by omega⟩
termination_by 8 * c.rest.length + 3

/-- One stage of a pipeline. -/
def readStage (c : Cursor) : Except Failure (Consumed Stage c) :=
  match readElement c with
  | .error failure => .error failure
  | .ok ⟨first, d, _⟩ =>
    if first.isBareword then
      match readElements d with
      | .error failure => .error failure
      | .ok ⟨more, e, _⟩ => .ok ⟨.command (first :: more) (c.spanTo e), e, by omega⟩
    else .ok ⟨.expression first, d, by omega⟩
termination_by 8 * c.rest.length + 2

/-- The elements up to the end of the stage. -/
def readElements (c : Cursor) : Except Failure (Reached (List Element) c) :=
  have := c.skipInline_le
  if c.skipInline.atStageEnd then
    .ok ⟨[], c, Nat.le_refl _⟩
  else
    match readElement c.skipInline with
    | .error failure => .error failure
    | .ok ⟨element, d, _⟩ =>
      match readElements d with
      | .error failure => .error failure
      | .ok ⟨elements, e, _⟩ => .ok ⟨element :: elements, e, by omega⟩
termination_by 8 * c.rest.length + 1

/-- One element: a script block, or an atom. -/
def readElement (c : Cursor) : Except Failure (Consumed Element c) :=
  match h : c.rest with
  | '{' :: rest =>
    have := (c.seek rest).skipSeparators_le
    match readStatements (c.seek rest).skipSeparators with
    | .error failure => .error failure
    | .ok ⟨statements, d, _⟩ =>
      match h' : d.rest with
      | '}' :: after =>
        match Block.assemble statements ((c.seek rest).textTo d) (c.spanTo (d.seek after)) with
        | .error fault => .error ⟨c, some fault⟩
        | .ok block => .ok ⟨.script block, d.seek after, by simp_all; omega⟩
      | _ => .error ⟨d, some .unclosedBlock⟩
  | _ => Atom.read c
termination_by 8 * c.rest.length
decreasing_by simp_all; omega

end

/-- The tree of a source. -/
def parse (source : String) : Except SyntaxError Block :=
  let c := Cursor.start source
  match readStatements c.skipSeparators with
  | .error failure => .error (failure.toError source)
  | .ok ⟨statements, d, _⟩ =>
    match Block.assemble statements (c.textTo d) (c.spanTo d) with
    | .error fault => .error (Failure.toError source ⟨c, some fault⟩)
    | .ok block =>
      if d.rest = [] then .ok block
      else .error (Failure.toError source ⟨d, some .unexpectedToken⟩)

end Script
end KeywordScope
