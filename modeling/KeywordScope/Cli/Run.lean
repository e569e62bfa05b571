import KeywordScope.Binding.Layered
import KeywordScope.Cli.Help
import KeywordScope.Cli.Report
import KeywordScope.Declaration
import KeywordScope.TypeTable

/-!
# Running the command line

* `Outcome`: what is written, and the code with which the program ends.
* `verdicts`: declares grammars one after the other in a registry of their own.
* `check`, `inspect`: the outcomes of the two tasks.
* `run`: loads what the arguments name and does the task.
-/

namespace KeywordScope
namespace Cli

/-- What is written, and the code with which the program ends. -/
structure Outcome where
  code : UInt8 := 0
  output : String := ""
  errors : String := ""
  deriving DecidableEq, Repr

namespace Outcome

/-- The outcome after an error that leaves nothing else to write. -/
def failed (message : String) : Outcome :=
  { code := 1, errors := "error: " ++ message ++ "\n" }

/-- The outcome of arguments without a meaning. -/
def misused : Outcome :=
  { code := 2, errors := usageText }

/-- The outcome that writes lines. -/
def ofLines (lines : List String) (success : Bool) : Outcome where
  code := if success then 0 else 1
  output := String.join (lines.map (· ++ "\n"))

end Outcome

/-- Declares grammars one after the other, and tells the outcome of each. -/
def verdicts (config : Config) (grammars : List GrammarSource) :
    List Verdict × Registry LayeredTable :=
  let declare := Registry.declareEach config.output (TypeTable.find? {})
    (grammars.map fun grammar => (grammar.dsl, grammar.source))
  let (outcomes, registry) := declare.run (.ofConfig config {})
  (grammars.zipWith Verdict.mk outcomes, registry)

/-- Says of each grammar whether it is right. -/
def check (format : Format) (config : Config) (grammars : List GrammarSource) : Outcome :=
  let (verdicts, _) := verdicts config grammars
  let lines := match format with
    | .text => verdicts.map Verdict.text
    | .json => [(JsonTree.array (verdicts.map Verdict.json)).pretty ""]
  .ofLines lines (verdicts.all Verdict.isRight)

/-- The first grammar that is wrong, with its error. -/
def firstFailure? (verdicts : List Verdict) : Option (GrammarSource × KeywordError) :=
  verdicts.findSome? fun verdict =>
    match verdict.outcome with
    | .ok _ => none
    | .error e => some (verdict.grammar, e)

/-- Writes the trees of all languages, if all grammars are right. -/
def inspect (format : Format) (config : Config) (grammars : List GrammarSource) : Outcome :=
  let (verdicts, registry) := verdicts config grammars
  match firstFailure? verdicts with
  | some (grammar, e) => .failed ("Failed to compile " ++ grammar.path ++ ": " ++ e.message)
  | none =>
    let lines := match format with
      | .text =>
        registry.dslNames.flatMap fun dsl =>
          dsl :: KeywordTree.linesOfAll "  " (registry.forest dsl)
      | .json =>
        let languages := registry.dslNames.map fun dsl =>
          JsonTree.object [("dsl", .string dsl),
            ("keywords", .array (KeywordTree.jsonOfAll (registry.forest dsl)))]
        [(JsonTree.array languages).pretty ""]
    .ofLines lines true

variable {m : Type → Type} [Monad m]

/-- The configuration of a directory, with the grammars in the given files or, if there are none,
those of the directory. -/
def load (access : FileAccess m) (directory : ConfigDirectory) (files : List String) :
    Load m (Config × List GrammarSource) := do
  let config ← directory.config access
  let grammars ←
    if files.isEmpty then directory.grammars access config.grammar
    else files.mapM (GrammarSource.load access)
  return (config, grammars)

/-- Does what the arguments ask for. The directory is named by an option, else by a variable of the
environment. -/
def run (access : FileAccess m) (envDir? : Option String) (arguments : List String) :
    m Outcome := do
  match CommandLine.read? arguments with
  | none => return .misused
  | some .version => return { output := versionText }
  | some (.help topic) => return { output := helpText envDir? topic }
  | some (.run task options files) =>
    let directory := ⟨(options.configDir? <|> envDir?).getD ConfigDirectory.fallback⟩
    match ← (load access directory files).run with
    | .error e => return .failed e.describe
    | .ok (config, grammars) =>
      let format := options.format?.getD .text
      match task with
      | .check => return check format config grammars
      | .inspect => return inspect format config grammars

end Cli
end KeywordScope
