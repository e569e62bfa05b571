/-!
# Arguments of the command line

`kwdsl [options] check|inspect [options] [files]`. The options may stand before or behind the name
of the task, once at each place; the ones behind it win. Behind `--` everything is a file.

* `CommandLine`: what is asked for: a task, a help text or the version.
* `CommandLine.read?`: the meaning of the arguments, if they have one.
-/

namespace KeywordScope
namespace Cli

/-- What is done with grammars. -/
inductive Task where
  /-- Says of each grammar whether it is right. -/
  | check
  /-- Writes the trees of the languages. -/
  | inspect
  deriving DecidableEq, Repr

/-- The form of what is written. -/
inductive Format where
  | json
  | text
  deriving DecidableEq, Repr

/-- The options at one place. -/
structure Options where
  configDir? : Option String := none
  format? : Option Format := none
  deriving DecidableEq, Repr

/-- What a help text is about. -/
inductive Topic where
  /-- The whole command line. -/
  | program
  | task (task : Task)
  /-- The command that writes help texts. -/
  | help
  deriving DecidableEq, Repr

/-- What is asked for. -/
inductive CommandLine where
  | run (task : Task) (options : Options) (files : List String)
  | help (topic : Topic)
  | version
  deriving DecidableEq, Repr

/-- The task of a name. -/
def Task.ofName? : String → Option Task
  | "check" => some .check
  | "inspect" => some .inspect
  | _ => none

/-- What the command for help texts writes one about, given the names behind it. -/
def Topic.ofNames? : List String → Option Topic
  | [] => some .program
  | ["help"] => some .help
  | [name] => (Task.ofName? name).map .task
  | _ => none

/-- The format of a name. -/
def Format.ofName? : String → Option Format
  | "json" => some .json
  | "text" => some .text
  | _ => none

/-- An option with a value. -/
inductive Setting where
  | configDir
  | format
  deriving DecidableEq, Repr

namespace Options

/-- Sets an option, which may come only once. -/
def set? (options : Options) : Setting → String → Option Options
  | .configDir, value =>
    if options.configDir?.isSome then none else some { options with configDir? := some value }
  | .format, value =>
    if options.format?.isSome then none
    else (Format.ofName? value).map fun format => { options with format? := some format }

/-- These options, completed by other ones. -/
def orElse (options other : Options) : Options where
  configDir? := options.configDir? <|> other.configDir?
  format? := options.format? <|> other.format?

end Options

/-- The kinds of arguments. -/
inductive Word where
  /-- Anything that does not begin as an option does. -/
  | plain (text : String)
  /-- An option, perhaps with its value. -/
  | option (setting : Setting) (value? : Option String)
  | help
  | version
  /-- The end of the options. -/
  | terminator
  /-- An option that does not exist, or takes no value. -/
  | unknown
  deriving DecidableEq, Repr

namespace Word

/-- The long option of a name, with a value behind `=`. -/
def ofLong (name : String) (value? : Option String) : Word :=
  match name, value? with
  | "config-dir", value? => .option .configDir value?
  | "format", value? => .option .format value?
  | "help", none => .help
  | "version", none => .version
  | _, _ => .unknown

/-- The kind of an argument. The value of a short option may follow it directly. -/
def ofArgument (argument : String) : Word :=
  match argument.toList with
  | ['-', '-'] => .terminator
  | '-' :: '-' :: long =>
    let (name, value) := long.span (· != '=')
    .ofLong (String.ofList name) (value.tail?.map String.ofList)
  | ['-', 'f'] => .option .format none
  | '-' :: 'f' :: '=' :: value => .option .format (some (String.ofList value))
  | '-' :: 'f' :: value => .option .format (some (String.ofList value))
  | '-' :: 'h' :: _ => .help
  | '-' :: 'V' :: _ => .version
  | '-' :: _ :: _ => .unknown
  | _ => .plain argument

/-- The argument can be the value of an option before it. -/
def isValue (argument : String) : Bool :=
  match ofArgument argument with
  | .plain _ => true
  | _ => false

end Word

namespace CommandLine

/-- The meaning of the arguments behind the name of a task, if the options before it are right. The
name of a file is not empty. -/
def readTask? (task : Task) (outer? : Option Options) (options : Options) (files : List String) :
    List String → Option CommandLine
  | [] => finish files
  | argument :: rest =>
    match Word.ofArgument argument with
    | .plain file => readTask? task outer? options (files ++ [file]) rest
    | .option setting (some value) => do
      readTask? task outer? (← options.set? setting value) files rest
    | .option setting none =>
      match rest with
      | [] => none
      | value :: rest =>
        if Word.isValue value then do
          readTask? task outer? (← options.set? setting value) files rest
        else none
    | .help => if files.contains "" then none else some (.help (.task task))
    | .terminator => finish (files ++ rest)
    | .version | .unknown => none
where
  /-- The task with these files. -/
  finish (files : List String) : Option CommandLine := do
    let outer ← outer?
    if files.contains "" then none else some (.run task (options.orElse outer) files)

/-- The meaning of the arguments from before the name of a task. The last value that is an argument
of its own is looked at only when something other than the name of a task follows, or when the task
is done: a wrong one does not keep a help text from being written. -/
def readFrom? (options : Options) (last? : Option (Setting × String)) :
    List String → Option CommandLine
  | [] => none
  | argument :: rest =>
    let settled? := last?.elim (some options) fun (setting, value) => options.set? setting value
    match Word.ofArgument argument with
    | .plain name =>
      match Task.ofName? name with
      | some task => readTask? task settled? {} [] rest
      | none => if name = "help" then (Topic.ofNames? rest).map .help else none
    | .option setting (some value) => do
      readFrom? (← (← settled?).set? setting value) none rest
    | .option setting none =>
      match rest with
      | [] => none
      | value :: rest =>
        if Word.isValue value then do readFrom? (← settled?) (some (setting, value)) rest else none
    | .help => settled?.map fun _ => .help .program
    | .version => settled?.map fun _ => .version
    | .terminator | .unknown => none

/-- The meaning of arguments. -/
def read? (arguments : List String) : Option CommandLine :=
  readFrom? {} none arguments

end CommandLine
end Cli
end KeywordScope
