import KeywordScope.Script.Tree
import KeywordScope.SyntaxError

/-!
# Shapes of statements

In a grammar, each statement is one command of two or three elements: a keyword with its block
last (`Keyword [Name] {…}`), or a property (`Type [Property]`).

* `Shape.ofStatement`: the shape of a statement, or what is wrong with it.
* `Command.refuse`: the error about a command, which quotes it.
-/

namespace KeywordScope
namespace Script

/-- The elements of a command and its span. -/
structure Command where
  elements : List Element
  span : Span

namespace Command

/-- The command as a reader recognises it. -/
def shown (command : Command) : String :=
  " ".intercalate (command.elements.map Element.shown)

/-- The error that this command has a fault. -/
def refuse (command : Command) (fault : SyntaxFault) : SyntaxError :=
  { fault, node := command.shown, span := command.span }

end Command

/-- The stage as a reader recognises it. -/
def Stage.shown : Stage → String
  | .command elements span => Command.shown ⟨elements, span⟩
  | .expression element => element.text

/-- The statement as a reader recognises it. -/
def Statement.shown : Statement → String
  | .pipeline stages _ => " | ".intercalate (stages.map Stage.shown)
  | .flow keyword elements _ => " ".intercalate (keyword :: elements.map Element.text)
  | .assignment target value _ => "$" ++ target ++ " = " ++ value

end Script

open Script

/-- The shape of a statement in a grammar. -/
inductive Shape where
  /-- A name, perhaps a name mode, and a block. -/
  | keyword (name : Element) (mode? : Option Element) (body : Block)
  /-- Two elements, the last of them no block. -/
  | property (type name : Element)
  /-- Three elements, the last of them no block. -/
  | words (elements : List Element)

namespace Shape

/-- The shape of a command. -/
def ofCommand (command : Command) : Except SyntaxError Shape :=
  match command.elements with
  | [name, .script body] => .ok (.keyword name none body)
  | [name, mode, .script body] => .ok (.keyword name (some mode) body)
  | [type, name] => .ok (.property type name)
  | [a, b, c] => .ok (.words [a, b, c])
  | _ => .error (command.refuse .format)

/-- The command of a statement that consists of one. -/
def commandOf (statement : Statement) : Except SyntaxError Command :=
  match statement with
  | .pipeline [.command elements span] _ => .ok ⟨elements, span⟩
  | .pipeline [.expression element] _ =>
    .error { fault := .format, node := element.text, span := element.span }
  | .pipeline [] span => .error { fault := .format, node := "", span }
  | .pipeline _ span => .error { fault := .pipeline, node := statement.shown, span }
  | _ => .error { fault := .format, node := statement.shown, span := statement.span }

end Shape

end KeywordScope
