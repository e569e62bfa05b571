import KeywordScope.Keyword
import KeywordScope.Source.Span

/-!
# Grammars

What a checked declaration says: a forest of keywords, whose inner blocks declare keywords and
whose leaves declare properties.

* `Grammar`: a block of keywords, or a block of properties.
* `KeywordDecl`, `PropertyDecl`: the declarations in a block.
* `Grammar.properties`: the properties that a block declares itself.
* `KeywordDecl.count`: the number of keywords of a tree.
-/

namespace KeywordScope

/-- The declaration of a property. -/
structure PropertyDecl where
  property : Property
  span : Span
  deriving DecidableEq, Repr

mutual

/-- The declaration of a keyword. -/
inductive KeywordDecl where
  | mk (name : String) (nameMode : NameMode) (body : Grammar) (span : Span)

/-- A block of declarations of one kind. A block without declarations counts as one of keywords. -/
inductive Grammar where
  | keywords (decls : List KeywordDecl) (span : Span)
  | properties (decls : List PropertyDecl) (span : Span)

end

namespace KeywordDecl

def name : KeywordDecl → String
  | mk name _ _ _ => name

def nameMode : KeywordDecl → NameMode
  | mk _ nameMode _ _ => nameMode

def body : KeywordDecl → Grammar
  | mk _ _ body _ => body

def span : KeywordDecl → Span
  | mk _ _ _ span => span

end KeywordDecl

namespace Grammar

/-- The span of the block. -/
def span : Grammar → Span
  | keywords _ span => span
  | properties _ span => span

/-- The keywords that the block declares itself. -/
def keywordDecls : Grammar → List KeywordDecl
  | keywords decls _ => decls
  | properties _ _ => []

/-- The properties that the block declares itself. -/
def propertyDecls : Grammar → List PropertyDecl
  | keywords _ _ => []
  | properties decls _ => decls

/-- The block is one of properties. -/
def isPropertyBlock (grammar : Grammar) : Bool :=
  !grammar.propertyDecls.isEmpty

/-- The properties that the block declares. -/
def propertyList (grammar : Grammar) : List Property :=
  grammar.propertyDecls.map (·.property)

/-- The body of a keyword whose block this is: a map where properties are declared. -/
def toBody (grammar : Grammar) : Keyword.Body :=
  if grammar.propertyList.isEmpty then .executable else .map grammar.propertyList

end Grammar

mutual

/-- The number of keywords in the tree below, and with, a declaration. -/
def KeywordDecl.count : KeywordDecl → Nat
  | .mk _ _ body _ => 1 + body.count

/-- The number of keywords in a block. -/
def Grammar.count : Grammar → Nat
  | .keywords decls _ => Grammar.countAll decls
  | .properties _ _ => 0

/-- The number of keywords in several trees. -/
def Grammar.countAll : List KeywordDecl → Nat
  | [] => 0
  | decl :: decls => decl.count + Grammar.countAll decls

end

end KeywordScope
