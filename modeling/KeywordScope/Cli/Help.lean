import KeywordScope.Cli.Arguments
import KeywordScope.Config.Directory
import KeywordScope.Text.Terminal

/-!
# Help texts

* `helpText`: the help on the whole command line, on one task or on help itself.
* `versionText`: the version.
* `usageText`: what is written if the arguments have no meaning.

The help texts are composed for a terminal and shown without its sequences, also without those that
the environment brings in.
-/

namespace KeywordScope
namespace Cli

/-- The version. -/
def versionText : String := "kwdsl 0.1.0\n"

/-- What a task does. -/
def Task.purpose : Task → String
  | check => "Compile grammars and report syntax errors"
  | inspect => "Compile grammars and print their keyword trees"

/-- The name of a task. -/
def Task.name : Task → String
  | check => "check"
  | inspect => "inspect"

/-- A row of a help text: an entry, filled up to a width in which only what it shows counts, and
what it means. What stands on further lines is put below the meaning. -/
def helpRow (width : Nat) (entry meaning : String) : String :=
  let blanks (n : Nat) := String.ofList (List.replicate n ' ')
  "  " ++ entry ++ blanks (width - (Terminal.plain entry).length + 2) ++
    ("\n" ++ blanks (width + 4)).intercalate (meaning.splitOn "\n")

/-- The rows on options, with the directory named by the environment. -/
def optionRows (envDir? : Option String) (more : List (String × String)) : List String :=
  let rows := [
    ("    " ++ Terminal.bold "--config-dir" ++ " <CONFIG_DIR>",
      "Configuration directory (keywords.yaml, grammars/) [env: KEYWORD_DSL_CONFIG_DIR=" ++
        envDir?.getD "" ++ "] [default: " ++ ConfigDirectory.fallback ++ "]"),
    (Terminal.bold "-f" ++ ", " ++ Terminal.bold "--format" ++ " <FORMAT>",
      "Output format [default: text] [possible values: json, text]"),
    (Terminal.bold "-h" ++ ", " ++ Terminal.bold "--help", "Print help")] ++ more
  rows.map fun (entry, meaning) => helpRow 29 entry meaning

/-- What the command for help texts does. -/
def helpPurpose : String :=
  "Print this message or the help of the given subcommand(s)"

/-- The lines of the help text about a topic, for a terminal. -/
def helpLines (envDir? : Option String) : Topic → List String
  | .program =>
    ["Compile keyword DSL grammars and inspect the registered keywords", "",
      usage ++ " [OPTIONS] <COMMAND>", "",
      Terminal.heading "Commands:",
      helpRow 7 (Terminal.bold Task.check.name) Task.check.purpose,
      helpRow 7 (Terminal.bold Task.inspect.name) Task.inspect.purpose,
      helpRow 7 (Terminal.bold "help") helpPurpose, "",
      Terminal.heading "Options:"] ++
    optionRows envDir?
      [(Terminal.bold "-V" ++ ", " ++ Terminal.bold "--version", "Print version")]
  | .task task =>
    [task.purpose, "",
      usage ++ " " ++ Terminal.bold task.name ++ " [OPTIONS] [FILES]...", "",
      Terminal.heading "Arguments:",
      helpRow 10 "[FILES]..." "Grammar files (defaults to every grammar in the config directory)",
      "", Terminal.heading "Options:"] ++ optionRows envDir? []
  | .help =>
    [helpPurpose, "",
      usage ++ " " ++ Terminal.bold "help" ++ " [COMMAND]...", "",
      Terminal.heading "Arguments:",
      helpRow 12 "[COMMAND]..." "Print help for the subcommand(s)"]
where
  /-- How a use of the command line begins. -/
  usage : String := Terminal.heading "Usage:" ++ " " ++ Terminal.bold "kwdsl"

/-- The help text about a topic. -/
def helpText (envDir? : Option String) (topic : Topic) : String :=
  Terminal.plain ("\n".intercalate (helpLines envDir? topic) ++ "\n")

/-- What is written if the arguments have no meaning. -/
def usageText : String :=
  "error: these arguments are not understood\n\n" ++
    "Usage: kwdsl [OPTIONS] <COMMAND>\n\nFor more information, try '--help'.\n"

end Cli
end KeywordScope
