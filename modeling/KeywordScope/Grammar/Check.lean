import KeywordScope.Binding.Basic
import KeywordScope.Grammar.Shape
import KeywordScope.Grammar.Tree
import KeywordScope.Text.CharClass

/-!
# Checking a grammar

A script is a grammar if every block has the right statements; the first fault is reported.

* `Rules`: what the check depends on besides the script.
* `checkBlock`: the grammar of a block below a keyword, or at the root. It works with any way to
  find types that may keep a state.
* `TypeCache`: the state with which types are found once for all spellings of a word.
* `Grammar.check`: the check of a whole script with an empty cache.
-/

namespace KeywordScope

open Script

/-- What the check of a grammar depends on. -/
structure Rules where
  /-- The language that is declared. -/
  dsl : String
  /-- The command to which keywords are bound. -/
  dispatcher : String
  /-- Fields of every output, which no property may be named like. -/
  reserved : List String
  /-- The bindings of the host. -/
  lookup : String → Option Binding

/-- The text can be the name of a keyword: ASCII letters only. -/
def isKeywordName (text : String) : Bool :=
  !text.toList.isEmpty && text.toList.all Char.isAlpha

/-- The name of a property and whether it is required: a name in brackets is optional. -/
def propertyName? (text : String) : Option (String × Bool) :=
  let isName (cs : List Char) := !cs.isEmpty && cs.all isWordChar
  match text.toList with
  | '[' :: rest =>
    if rest.getLast? = some ']' && isName rest.dropLast then
      some (String.ofList rest.dropLast, false)
    else none
  | cs => if isName cs then some (text, true) else none

/-- The state of a check, with which types are found. -/
abbrev Check (σ : Type) := ExceptT SyntaxError (StateM σ)

/-- A way to find types, which may keep a state. -/
abbrev FindType (σ : Type) := String → StateM σ (Option HostType)

/-- The name mode of a keyword declaration. -/
def nameModeOf (command : Command) : Option Element → Except SyntaxError NameMode
  | none => .ok .noName
  | some element =>
    match NameMode.ofToken? element.text with
    | some mode => .ok mode
    | none => .error (command.refuse .nameMode)

/-- Whether a block may declare a keyword here. The block has declared `keywords` and `properties`
so far, and is that of the keyword `parent?`, or the root. -/
def checkKeyword (rules : Rules) (parent? : Option String) (keywords : List KeywordDecl)
    (properties : List PropertyDecl) (command : Command) (name : Element) (mode? : Option Element)
    (body : Block) : Except SyntaxError NameMode := do
  if body.isEmpty then
    throw { fault := .emptyBody, node := "\x7b\x7d", span := body.span }
  if !(name :: mode?.toList).all Element.isLiteral then
    throw (command.refuse .expression)
  if !properties.isEmpty then
    throw (command.refuse .mixedBlock)
  if !isKeywordName name.text then
    throw (command.refuse .keywordName)
  match parent? with
  | some parent =>
    if sameName parent name.text then
      throw (command.refuse .parentName)
  | none =>
    if (rules.lookup name.text).any fun binding => !binding.pointsTo rules.dispatcher then
      throw (command.refuse (.bindingConflict name.text rules.dsl))
  let mode ← nameModeOf command mode?
  if keywords.any fun decl => sameName decl.name name.text then
    throw (command.refuse .duplicateKeyword)
  return mode

/-- The property that a block declares, given the type that was found for it. -/
def checkProperty (rules : Rules) (parent? : Option String) (keywords : List KeywordDecl)
    (properties : List PropertyDecl) (command : Command) (typeWord name : Element)
    (type? : Option HostType) : Except SyntaxError PropertyDecl := do
  let some type := type? | throw (command.refuse (.unknownType typeWord.text))
  let some (name, required) := propertyName? name.text | throw (command.refuse .propertyName)
  if let some field := rules.reserved.find? (sameName · name) then
    throw (command.refuse (.reservedProperty field))
  if !keywords.isEmpty then
    throw (command.refuse .mixedBlock)
  if parent?.isNone then
    throw (command.refuse .rootProperty)
  if properties.any fun decl => sameName decl.property.name name then
    throw (command.refuse .duplicateProperty)
  return ⟨⟨name, required, type⟩, command.span⟩

theorem Shape.body_lt {statement : Statement} {command : Command} {name : Element}
    {mode? : Option Element} {body : Block} (h : Shape.commandOf statement = .ok command)
    (h' : Shape.ofCommand command = .ok (.keyword name mode? body)) :
    sizeOf body < sizeOf statement := by
  unfold Shape.commandOf at h
  split at h <;> simp only [Except.ok.injEq, reduceCtorEq] at h
  subst h
  unfold Shape.ofCommand at h'
  split at h' <;> simp_all <;> omega

theorem Script.Block.statements_lt (block : Block) : sizeOf block.statements < sizeOf block := by
  obtain ⟨_, _, ⟨_, _, _, _⟩, _, _⟩ := block
  simp [Block.statements, Block.endBlock, NamedBlock.statements]
  omega

mutual

/-- The grammar of a block, which is that of the keyword `parent?`, or the root. -/
def checkBlock {σ : Type} (rules : Rules) (findType : FindType σ) (parent? : Option String)
    (block : Block) : Check σ Grammar := do
  if let some named := block.begin? then
    throw { fault := .beginBlock, node := "begin", span := named.span }
  if let some named := block.process? then
    throw { fault := .processBlock, node := "process", span := named.span }
  let (keywords, properties) ← checkStatements rules findType parent? [] [] block.statements
  return if properties.isEmpty then .keywords keywords block.span
    else .properties properties block.span
termination_by sizeOf block
decreasing_by exact block.statements_lt

/-- The declarations of a block: those so far, and those of the statements that follow. -/
def checkStatements {σ : Type} (rules : Rules) (findType : FindType σ) (parent? : Option String)
    (keywords : List KeywordDecl) (properties : List PropertyDecl) :
    List Statement → Check σ (List KeywordDecl × List PropertyDecl)
  | [] => return (keywords, properties)
  | statement :: statements =>
    match h : Shape.commandOf statement with
    | .error e => throw e
    | .ok command =>
      match h' : Shape.ofCommand command with
      | .error e => throw e
      | .ok (.keyword name mode? body) => do
        have := Shape.body_lt h h'
        let mode ← checkKeyword rules parent? keywords properties command name mode? body
        let grammar ← checkBlock rules findType (some name.text) body
        checkStatements rules findType parent?
          (keywords ++ [.mk name.text mode grammar command.span]) properties statements
      | .ok (.property type name) => do
        if !(type.isLiteral && name.isLiteral) then
          throw (command.refuse .expression)
        let type? ← (findType type.text : StateM σ (Option HostType))
        let decl ← checkProperty rules parent? keywords properties command type name type?
        checkStatements rules findType parent? keywords (properties ++ [decl]) statements
      | .ok (.words elements) =>
        throw (command.refuse (if elements.all Element.isLiteral then .format else .expression))
termination_by statements => sizeOf statements
decreasing_by all_goals rw [List.cons.sizeOf_spec]; omega

end

/-- Types that were found, by the word for them in small letters. -/
abbrev TypeCache := List (String × HostType)

/-- The type that a word stands for, taken from the cache if any spelling of the word is there. -/
def TypeCache.find (findType : String → Option HostType) : FindType TypeCache := fun token => do
  let key := foldCase token
  match (← get).lookup key with
  | some type => return some type
  | none =>
    match findType token with
    | some type =>
      modify ((key, type) :: ·)
      return some type
    | none => return none

/-- The grammar that a script declares below `parent?`, or at the root. -/
def Grammar.check (rules : Rules) (findType : String → Option HostType) (parent? : Option String)
    (block : Block) : Except SyntaxError Grammar :=
  ((checkBlock rules (TypeCache.find findType) parent? block).run.run []).1

end KeywordScope
