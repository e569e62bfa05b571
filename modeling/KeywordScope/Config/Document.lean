import KeywordScope.Config
import KeywordScope.Yaml.Reader

/-!
# Configuration documents

A configuration is written as a mapping with a section for each of its parts. What is left out
takes its default, and what is not known does not count.

* `Config.ofYaml?`: the configuration that a document holds, if it has the shape of one.
* `Config.parse?`: the configuration that a text holds.
-/

namespace KeywordScope

/-- The entries of a section, of which those that are known come at most once. -/
def Yaml.section? (known : List String) (document : Yaml) : Option (List (String × Yaml)) := do
  let members ← document.members?
  guard (known.all fun name => members.countP (·.1 == name) ≤ 1)
  return members

/-- The text of a setting, or its default. Every scalar is a text. -/
def settingText? (members : List (String × Yaml)) (name : String) (fallback : String) :
    Option String :=
  match members.lookup name with
  | some value => value.text?
  | none => some fallback

/-- The part of a configuration in a section, or its default. -/
def settingPart? {α : Type} (read : Yaml → Option α) (members : List (String × Yaml))
    (name : String) (fallback : α) : Option α :=
  match members.lookup name with
  | some value => read value
  | none => some fallback

/-- The section on the dispatching command. -/
def DispatcherConfig.ofYaml? (document : Yaml) : Option DispatcherConfig := do
  let members ← document.section? ["command", "module", "binding_description"]
  let fallback : DispatcherConfig := {}
  return { command := ← settingText? members "command" fallback.command
           module := ← settingText? members "module" fallback.module
           bindingDescription :=
             ← settingText? members "binding_description" fallback.bindingDescription }

/-- The section on output. -/
def OutputConfig.ofYaml? (document : Yaml) : Option OutputConfig := do
  let members ← document.section? ["type_prefix", "name_field", "produced_by_field"]
  let fallback : OutputConfig := {}
  return { typePrefix := ← settingText? members "type_prefix" fallback.typePrefix
           nameField := ← settingText? members "name_field" fallback.nameField
           producedByField := ← settingText? members "produced_by_field" fallback.producedByField }

/-- The section on grammars. -/
def GrammarConfig.ofYaml? (document : Yaml) : Option GrammarConfig := do
  let members ← document.section? ["path_separator", "file_extension"]
  let fallback : GrammarConfig := {}
  return { pathSeparator := ← settingText? members "path_separator" fallback.pathSeparator
           fileExtension := ← settingText? members "file_extension" fallback.fileExtension }

namespace Config

/-- The configuration that a document holds. -/
def ofYaml? (document : Yaml) : Option Config := do
  let members ← document.section? ["dispatcher", "output", "grammar"]
  return { dispatcher := ← settingPart? DispatcherConfig.ofYaml? members "dispatcher" {}
           output := ← settingPart? OutputConfig.ofYaml? members "output" {}
           grammar := ← settingPart? GrammarConfig.ofYaml? members "grammar" {} }

/-- The configuration that a text holds. -/
def parse? (text : String) : Option Config :=
  (Yaml.parse? text).bind ofYaml?

end Config
end KeywordScope
