/-!
# Documents in YAML

The part of YAML that configuration files are written in: block and flow collections of plain and
quoted scalars.

* `Yaml`: a document as a tree.
* `Yaml.text?`, `Yaml.members?`: what a scalar and a mapping hold.
-/

namespace KeywordScope

/-- A document, or a part of one. -/
inductive Yaml where
  /-- A text. A plain scalar is written without quotes. -/
  | scalar (text : String) (plain : Bool)
  | sequence (items : List Yaml)
  /-- Keys with their values, in order. A key may come more than once. -/
  | mapping (entries : List (Yaml × Yaml))

namespace Yaml

/-- What stands where nothing is written. -/
def empty : Yaml :=
  .scalar "" true

/-- The text of a scalar. -/
def text? : Yaml → Option String
  | .scalar text _ => some text
  | _ => none

/-- The entries of a mapping whose keys are all scalars. Where nothing is written, there are no
entries. -/
def members? : Yaml → Option (List (String × Yaml))
  | .mapping entries => entries.mapM fun (key, value) => key.text?.map fun name => (name, value)
  | .scalar "" true => some []
  | _ => none

end Yaml
end KeywordScope
