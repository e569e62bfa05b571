import KeywordScope.Script.Tree
import KeywordScope.SyntaxError

/-!
# Assembling statements and blocks

What a reader does with the pieces it has read.

* `Statement.ofStages`: a single command that is led by a control flow word is a flow statement.
* `Block.assemble`: statements of the form `begin {…}`, `process {…}` and `end {…}` become the
  named blocks of their block. A block has either named blocks, one of a kind, or statements.
-/

namespace KeywordScope
namespace Script

/-- The words that begin a control flow statement. -/
def flowWords : List String :=
  ["if", "elseif", "else", "foreach", "for", "while", "do", "until", "switch", "try", "catch",
    "finally", "trap", "function", "filter", "workflow", "configuration", "return", "break",
    "continue", "throw", "exit", "param"]

/-- The statement that consists of the stages. -/
def Statement.ofStages (stages : List Stage) (span : Span) : Statement :=
  match stages with
  | [.command (word :: elements) _] =>
    if hasName flowWords word.text then .flow word.text elements span else .pipeline stages span
  | _ => .pipeline stages span

/-- The named block that a statement introduces: one of the three words, then a script block. Only
the end block of the script block counts. -/
def NamedBlock.ofStatement? : Statement → Option NamedBlock
  | .pipeline [.command [.bareword text _, .script body] span] _ =>
    (BlockKind.ofWord? text).map fun kind => .mk kind false body.statements span
  | _ => none

/-- The block with these statements, with the text between its braces and its span. -/
def Block.assemble (statements : List Statement) (text : String) (span : Span) :
    Except SyntaxFault Block :=
  let named := statements.filterMap NamedBlock.ofStatement?
  let plain := statements.filter fun statement => (NamedBlock.ofStatement? statement).isNone
  let ofKind (kind : BlockKind) := named.filter fun block => block.kind == kind
  if [BlockKind.begin, .process, .finish].any fun kind => 1 < (ofKind kind).length then
    .error .duplicateNamedBlock
  else if !named.isEmpty && !plain.isEmpty then
    .error .strayStatement
  else
    .ok <| .mk (ofKind .begin).head? (ofKind .process).head?
      ((ofKind .finish).head?.getD (.mk .finish true plain span)) text span

end Script
end KeywordScope
