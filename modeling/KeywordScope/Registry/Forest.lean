import KeywordScope.Registry.Basic

/-!
# The forest of a language

* `KeywordTree`: a keyword with its path and the trees below it.
* `Registry.forest`: the trees of a language, from its roots in order of registration.
-/

namespace KeywordScope

/-- A member of a language with all members below it. -/
inductive KeywordTree where
  | node (path : String) (keyword : Keyword) (children : List KeywordTree)

namespace Registry

variable {τ : Type}

/-- The tree below a keyword, up to a height. -/
def tree? (registry : Registry τ) : Nat → Keyword.Id → Option KeywordTree
  | 0, _ => none
  | height + 1, id =>
    (registry.find? id).map fun entry =>
      .node entry.path entry.keyword ((registry.children id).filterMap (registry.tree? height))

/-- The trees of a language. No tree is higher than there are keywords. -/
def forest (registry : Registry τ) (dsl : String) : List KeywordTree :=
  (registry.roots dsl).filterMap fun root => registry.tree? registry.entries.length root.id

end Registry
end KeywordScope
