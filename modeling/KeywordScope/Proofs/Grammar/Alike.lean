import KeywordScope.Grammar.Tree
import KeywordScope.Proofs.Text.Joined
import Mathlib.Data.List.Forall2

/-!
# Grammars that are alike

Two grammars that declare the same, but for the spelling of names.

* `Spelling`: in how far names may differ. `Spelling.exact`: not at all; `Spelling.anyCase`: in the
  case of letters.
* `Grammar.Like`, `KeywordDecl.Like`: the grammars have one shape, with the same modes, types and
  required properties.
* `Grammar.Like.toBody`: then the bodies of keywords are alike.
-/

namespace KeywordScope

/-- In how far names may differ: at most in case. Joined names differ as little as their parts. -/
structure Spelling where
  same : String → String → Prop
  refl : ∀ name, same name name
  append : ∀ {a a' b b' : String}, same a a' → same b b' → same (a ++ b) (a' ++ b')
  sameName : ∀ {a a' : String}, same a a' → sameName a a' = true

/-- Names are spelled in one way. -/
def Spelling.exact : Spelling where
  same name name' := name' = name
  refl _ := rfl
  append h h' := h ▸ h' ▸ rfl
  sameName := sameName_of_eq

/-- Names differ in the case of letters. -/
def Spelling.anyCase : Spelling where
  same name name' := KeywordScope.sameName name name' = true
  refl := sameName_refl
  append h h' := by
    rw [sameName_iff] at *
    rw [foldCase_append, foldCase_append, h, h']
  sameName h := h

/-! ## Declarations -/

/-- The properties differ in the spelling of their names at most. -/
structure Property.Like (S : Spelling) (property property' : Property) : Prop where
  name : S.same property.name property'.name
  required : property'.required = property.required
  type : property'.type = property.type

/-- The bodies have properties that are alike, or are executable. -/
inductive Keyword.Body.Like (S : Spelling) : Keyword.Body → Keyword.Body → Prop
  | map {properties properties' : List Property}
      (h : List.Forall₂ (Property.Like S) properties properties') :
      Like S (.map properties) (.map properties')
  | executable : Like S .executable .executable

mutual

inductive KeywordDecl.Like (S : Spelling) : KeywordDecl → KeywordDecl → Prop
  | mk {name name' : String} {nameMode : NameMode} {body body' : Grammar} {span span' : Span} :
      S.same name name' → Grammar.Like S body body' →
      KeywordDecl.Like S (.mk name nameMode body span) (.mk name' nameMode body' span')

inductive Grammar.Like (S : Spelling) : Grammar → Grammar → Prop
  | keywords {decls decls' : List KeywordDecl} {span span' : Span} :
      List.Forall₂ (KeywordDecl.Like S) decls decls' →
      Grammar.Like S (.keywords decls span) (.keywords decls' span')
  | properties {decls decls' : List PropertyDecl} {span span' : Span} :
      List.Forall₂ (fun decl decl' : PropertyDecl => decl.property.Like S decl'.property)
        decls decls' →
      Grammar.Like S (.properties decls span) (.properties decls' span')

end

section Like

variable {S : Spelling}

theorem Spelling.sameName_eq {a a' b b' : String} (h : S.same a a') (h' : S.same b b') :
    KeywordScope.sameName a b = KeywordScope.sameName a' b' := by
  rw [KeywordScope.sameName, KeywordScope.sameName, sameName_iff.1 (S.sameName h),
    sameName_iff.1 (S.sameName h')]

theorem Property.Like.refl (property : Property) : property.Like S property :=
  ⟨S.refl _, rfl, rfl⟩

theorem Keyword.Body.Like.refl (body : Keyword.Body) : body.Like S body := by
  cases body with
  | map properties => exact .map (List.forall₂_same.2 fun property _ => .refl property)
  | executable => exact .executable

theorem Grammar.Like.propertyList {g g' : Grammar} (h : g.Like S g') :
    List.Forall₂ (Property.Like S) g.propertyList g'.propertyList := by
  cases h with
  | keywords => exact .nil
  | properties h => exact List.forall₂_map_left_iff.2 (List.forall₂_map_right_iff.2 h)

theorem Grammar.Like.toBody {g g' : Grammar} (h : g.Like S g') : g.toBody.Like S g'.toBody := by
  have hproperties := h.propertyList
  rw [Grammar.toBody, Grammar.toBody]
  generalize g.propertyList = properties, g'.propertyList = properties' at hproperties
  cases hproperties with
  | nil => exact .executable
  | cons hfirst hmore => exact .map (.cons hfirst hmore)

mutual

theorem KeywordDecl.Like.refl : ∀ decl : KeywordDecl, decl.Like S decl
  | .mk name _ body _ => .mk (S.refl name) (Grammar.Like.refl body)

theorem Grammar.Like.refl : ∀ g : Grammar, g.Like S g
  | .keywords decls _ => .keywords (KeywordDecl.Like.refl_all decls)
  | .properties _ _ =>
    .properties (List.forall₂_same.2 fun decl _ => Property.Like.refl decl.property)

theorem KeywordDecl.Like.refl_all :
    ∀ decls : List KeywordDecl, List.Forall₂ (KeywordDecl.Like S) decls decls
  | [] => .nil
  | decl :: decls => .cons (KeywordDecl.Like.refl decl) (KeywordDecl.Like.refl_all decls)

end

end Like

end KeywordScope
