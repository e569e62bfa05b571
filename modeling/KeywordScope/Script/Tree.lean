import KeywordScope.ScriptBlock
import KeywordScope.Source.Span
import KeywordScope.Text.Blank
import KeywordScope.Text.Case

/-!
# Script trees

The tree of a declaration script, as it was written: statements, pipelines, command elements and
nested script blocks, each with its text and span. Whether a statement declares a keyword or a
property is decided later (`KeywordScope.Grammar`).

* `Block`: a braced block, or the whole script. Its end block holds the plain statements.
* `Statement`: a pipeline, a control flow statement or an assignment.
* `Stage`: one stage of a pipeline: a command led by a word, or a single expression.
* `Element`: one element of a command.
-/

namespace KeywordScope
namespace Script

/-- The kinds of named blocks. -/
inductive BlockKind where
  | begin
  | process
  | finish
  deriving DecidableEq, Repr

namespace BlockKind

/-- The word that introduces a named block. -/
def word : BlockKind → String
  | begin => "begin"
  | process => "process"
  | finish => "end"

/-- The kind of block that a word introduces, in any spelling of its letters. -/
def ofWord? (w : String) : Option BlockKind :=
  [begin, process, finish].find? fun kind => sameName kind.word w

end BlockKind

mutual

/-- A script block. -/
inductive Block where
  /-- The begin and process blocks, the end block, the text between the braces, and the span with
  the braces. The whole script has no braces: its text is the source. -/
  | mk (begin? process? : Option NamedBlock) (endBlock : NamedBlock) (text : String) (span : Span)

/-- The statements of a begin, process or end block. -/
inductive NamedBlock where
  /-- An unnamed block is the end block that plain statements form. -/
  | mk (kind : BlockKind) (unnamed : Bool) (statements : List Statement) (span : Span)

/-- A statement. -/
inductive Statement where
  /-- Stages joined by `|`. -/
  | pipeline (stages : List Stage) (span : Span)
  /-- A control flow word with all that follows it in its statement. -/
  | flow (keyword : String) (elements : List Element) (span : Span)
  /-- `$target = value`. -/
  | assignment (target value : String) (span : Span)

/-- One stage of a pipeline. -/
inductive Stage where
  /-- A command: a word and the elements after it. -/
  | command (elements : List Element) (span : Span)
  /-- A stage that is led by anything but a word is that one element. -/
  | expression (element : Element)

/-- One element of a command. -/
inductive Element where
  /-- A word without quotes, such as `Stage` or `[Name]`. -/
  | bareword (text : String) (span : Span)
  /-- A string with its value; the text includes the quotes. -/
  | quoted (value text : String) (span : Span)
  /-- `$name`. -/
  | variable (name text : String) (span : Span)
  /-- A number. -/
  | number (text : String) (span : Span)
  /-- `(…)`, `$(…)` or `@(…)`. -/
  | subExpression (text : String) (span : Span)
  /-- The hashtable `@` with its braces. -/
  | hashtable (text : String) (span : Span)
  /-- A nested script block. -/
  | script (block : Block)

end

namespace NamedBlock

def kind : NamedBlock → BlockKind
  | mk kind _ _ _ => kind

def unnamed : NamedBlock → Bool
  | mk _ unnamed _ _ => unnamed

def statements : NamedBlock → List Statement
  | mk _ _ statements _ => statements

def span : NamedBlock → Span
  | mk _ _ _ span => span

end NamedBlock

namespace Block

def begin? : Block → Option NamedBlock
  | mk begin? _ _ _ _ => begin?

def process? : Block → Option NamedBlock
  | mk _ process? _ _ _ => process?

def endBlock : Block → NamedBlock
  | mk _ _ endBlock _ _ => endBlock

/-- The source text between the braces. -/
def text : Block → String
  | mk _ _ _ text _ => text

def span : Block → Span
  | mk _ _ _ _ span => span

/-- The statements of the end block. -/
def statements (block : Block) : List Statement :=
  block.endBlock.statements

/-- The block has neither a begin nor a process block, and no statement. -/
def isEmpty (block : Block) : Bool :=
  block.begin?.isNone && block.process?.isNone && block.statements.isEmpty

/-- The block as a body for the host: its text without the blanks around it. -/
def toScriptBlock (block : Block) : ScriptBlock :=
  ⟨trim block.text⟩

end Block

namespace Element

/-- The element as written; for a script block, the text between its braces. -/
def text : Element → String
  | .bareword text _ => text
  | .quoted _ text _ => text
  | .variable _ text _ => text
  | .number text _ => text
  | .subExpression text _ => text
  | .hashtable text _ => text
  | .script block => block.text

def span : Element → Span
  | .bareword _ span => span
  | .quoted _ _ span => span
  | .variable _ _ span => span
  | .number _ span => span
  | .subExpression _ span => span
  | .hashtable _ span => span
  | .script block => block.span

def isBareword : Element → Bool
  | .bareword .. => true
  | _ => false

/-- The element is a literal text: a word or a quoted string. -/
def isLiteral : Element → Bool
  | .bareword .. => true
  | .quoted .. => true
  | _ => false

/-- The element as a reader recognises it: a script block with its braces, all else as written. -/
def shown : Element → String
  | .script block => "\x7b" ++ block.text ++ "\x7d"
  | element => element.text

end Element

namespace Stage

def span : Stage → Span
  | command _ span => span
  | expression element => element.span

end Stage

namespace Statement

def span : Statement → Span
  | pipeline _ span => span
  | flow _ _ span => span
  | assignment _ _ span => span

end Statement

/-- The name of a command: the text of its leading word. -/
def commandName : List Element → String
  | [] => ""
  | element :: _ => element.text

end Script
end KeywordScope
