import KeywordScope.Host
import KeywordScope.Registry.Scope
import KeywordScope.Value.Text

/-!
# Dispatching a request

A request runs through fixed steps: the keyword is found, the request is checked, the first hook
and the body run, and a record is assembled, which the second hook may replace. The body of a
member runs within the scope of the member, which is left before any error of the body goes on.

* `checkRequest`: what a request has to satisfy.
* `collect`: the fields that the items of a body form.
* `assemble`: the record of a use.
* `use`: the steps, over any way to run script blocks, with the moments that can be observed of
  them; `dispatch`: the steps without these.
* `Program.run`: runs the program of a body, over any way to perform operations.
-/

namespace KeywordScope

/-- The registry, and what programs have put down. -/
structure State (τ ω : Type) where
  registry : Registry τ
  journal : List (Observation τ ω) := []

/-- A run on the state. It may fail, with the state that it reached, or not come to an end within
the allowed depth of nested uses (`none`). -/
abbrev Run (τ ω α : Type) := ExceptT KeywordError (StateT (State τ ω) Option) α

namespace Run

variable {τ ω α : Type}

/-- A run that does not come to an end. -/
def exhausted : Run τ ω α :=
  ExceptT.mk fun _ => none

/-- A step on the registry alone. -/
def onRegistry (action : Registry.Action τ α) : Run τ ω α := do
  let state ← get
  let (result, registry) := action.run state.registry
  set { state with registry }
  result

/-- The outcome of a run, with the state that it reached. -/
def attempt (run : Run τ ω α) : Run τ ω (Except KeywordError α) :=
  ExceptT.lift run.run

end Run

/-- A stage of a use at which the host runs a script block. -/
inductive Stage where
  /-- The hook before the body. -/
  | invoking
  /-- The body of the keyword. -/
  | body (entry : Entry)
  /-- The hook after the body. -/
  | invoked

/-- What can be observed of a use while it runs. -/
inductive Moment (τ : Type) where
  /-- The host starts a block at a stage, with the registry as it is then. -/
  | started (stage : Stage) (registry : Registry τ)
  /-- The scope of a member was left, with this answer. -/
  | released (answer : Except KeywordError Keyword.Id)

/-- A run with its moments, which are there also if it does not come to an end. -/
abbrev Course (τ ω α : Type) :=
  ExceptT KeywordError (StateT (State τ ω) (OptionT (StateM (List (Moment τ))))) α

namespace Course

variable {τ ω α : Type}

/-- A run without moments of its own. -/
def ofRun (run : Run τ ω α) : Course τ ω α :=
  ExceptT.mk fun state => OptionT.mk (pure (run.run state))

/-- Puts down a moment. -/
def note (observe : Registry τ → Moment τ) : Course τ ω Unit := do
  let state ← get
  modifyThe (List (Moment τ)) (· ++ [observe state.registry])

/-- How a course ends, and its moments, from a state on. -/
def trace (course : Course τ ω α) (state : State τ ω) :
    Option (Except KeywordError α × State τ ω) × List (Moment τ) :=
  ((course.run state).run).run []

/-- The run alone. -/
def toRun (course : Course τ ω α) : Run τ ω α :=
  ExceptT.mk fun state => (course.trace state).1

/-- The moments alone. -/
def moments (course : Course τ ω α) (state : State τ ω) : List (Moment τ) :=
  (course.trace state).2

end Course

/-- The error with which a keyword fails when the host fails. The error of a keyword that the body
used is handed on as it is. -/
def HostError.toKeywordError : HostError → KeywordError
  | .keyword inner => inner
  | error => .host error

/-- Runs a program, given a way to perform operations. -/
def Program.run {τ ω : Type} (perform : Operation τ ω → Run τ ω (Reply ω)) :
    Program τ ω → Run τ ω (List Value)
  | .finish (.ok items) => return items
  | .finish (.error e) => throw e.toKeywordError
  | .perform operation next => do
    let result ← Run.attempt (perform operation)
    (next result).run perform
  | .note observe next => do
    modify fun state => { state with journal := state.journal ++ [observe state.registry] }
    next.run perform

namespace Invocation

/-! ## Checking a request -/

/-- The command is the dispatching command, by itself or behind the name of its module. -/
def isDirectCall (dispatcher : DispatcherConfig) (command : String) : Bool :=
  let (before, after) := command.toList.span (· != '\\')
  match after with
  | [] => sameName command dispatcher.command
  | _ :: rest =>
    sameName (String.ofList before) dispatcher.module &&
      sameName (String.ofList rest) dispatcher.command

/-- The body of a request is of the kind that the keyword declares. -/
def checkBody (keyword : Keyword) (body : Value) : Except KeywordError Unit :=
  match body, keyword.body with
  | .script _, .executable => .ok ()
  | .map _, .map _ => .ok ()
  | .script _, _ => .error (.unsupportedBody keyword.name (.mismatch keyword.body))
  | .map _, _ => .error (.unsupportedBody keyword.name (.mismatch keyword.body))
  | value, _ => .error (.unsupportedBody keyword.name (.unusable value.shown))

/-- The request carries a name if, and only if, the keyword takes one. -/
def checkName (keyword : Keyword) (request : Request) : Except KeywordError Unit :=
  match keyword.nameMode, request.givenName? with
  | .nameRequired, none => .error (.invalidArgument keyword.name .nameRequired)
  | .noName, some _ => .error (.invalidArgument keyword.name .nameNotTaken)
  | _, _ => .ok ()

/-- A map sets declared properties only, and all required ones. -/
def checkProperties (keyword : Keyword) (fields : Fields) : Except KeywordError Unit :=
  match fields.names.find? fun name => (keyword.property? name).isNone with
  | some name => .error (.invalidArgument keyword.name (.unknownProperty name))
  | none =>
    match keyword.body.properties.find? fun property =>
      property.required && !hasName fields.names property.name with
    | some property => .error (.invalidArgument keyword.name (.missingProperty property.name))
    | none => .ok ()

/-- The request is one that the keyword accepts. -/
def checkRequest (dispatcher : DispatcherConfig) (isVisible : Bool) (keyword : Keyword)
    (request : Request) : Except KeywordError Unit := do
  if isDirectCall dispatcher request.invocationName then
    throw (.invalidOperation (.directCall dispatcher.command))
  if request.expectsInput then
    throw (.invalidOperation .pipelineInput)
  checkBody keyword request.body
  unless isVisible do
    throw (.invalidOperation (.notVisible keyword.name))
  checkName keyword request
  if let .map fields := request.body then
    checkProperties keyword fields

/-! ## Assembling the output -/

/-- The field for an item of a body: the item's own name, or else the name of its type. -/
def itemName (output : OutputConfig) (item : Value) : String :=
  match item.field? output.nameField with
  | some (.string name) => name
  | some .null => item.typeName
  | some other => other.shown
  | none => item.typeName

/-- The items of a body as fields; of those with one name, the last one counts. -/
def collect (output : OutputConfig) (items : List Value) : Fields :=
  items.foldl (fun fields item => fields.set (itemName output item) item) []

/-- The record of a use: the name, the fields of the body and the path of the keyword. The body
must not have the fields that every record has. -/
def assemble (output : OutputConfig) (entry : Entry) (name : String) (fields : Fields) :
    Except KeywordError Record :=
  match fields.names.find? (hasName output.reserved) with
  | some field => .error (.invalidArgument entry.keyword.name (.reservedField field))
  | none =>
    let named := (Record.ofType (output.typeName entry.path)).insert output.nameField (.string name)
    let filled := fields.foldl (fun record field => record.insert field.1 field.2) named
    .ok (filled.insert output.producedByField (.string entry.path))

/-! ## The steps -/

variable {τ ω : Type} [BindingTable τ]

/-- The host runs a block at a stage. -/
def runStage (runBlock : ScriptBlock → Fields → Run τ ω (List Value)) (stage : Stage)
    (block : ScriptBlock) (args : Fields) : Course τ ω (List Value) := do
  Course.note (.started stage)
  Course.ofRun (runBlock block args)

/-- Runs the body of a keyword; that of a member runs within its scope. -/
def runBody (runBlock : ScriptBlock → Fields → Run τ ω (List Value)) (entry : Entry)
    (block : ScriptBlock) : Course τ ω (List Value) := do
  if entry.isMember then
    let guard ← Course.ofRun (Run.onRegistry (Guard.enter entry.id))
    Course.note (.started (.body entry))
    let result ← Course.ofRun (Run.attempt (runBlock block []))
    let released ← Course.ofRun <| Run.attempt <| Run.onRegistry <|
      ExceptT.mk (Prod.fst <$> guard.release false)
    Course.note fun _ => .released released
    let items ← (result : Except KeywordError (List Value))
    let _ ← (released : Except KeywordError Keyword.Id)
    return items
  else runStage runBlock (.body entry) block []

/-- The output of a use of a keyword, given a way to run script blocks. -/
def use (config : Config) (runBlock : ScriptBlock → Fields → Run τ ω (List Value))
    (request : Request) : Course τ ω (List Value) := do
  let entry ← Course.ofRun (Run.onRegistry (Registry.loadVisible request.keyword))
  let keyword := entry.keyword
  let isVisible := (← get).registry.isVisible keyword.id
  checkRequest config.dispatcher isVisible keyword request
  let before ← match entry.onInvoking? with
    | some hook =>
      runStage runBlock .invoking hook [("Name", (request.name?.map Value.string).getD .null)]
    | none => pure []
  let fields ← match request.body, keyword.body with
    | .script block, .executable => collect config.output <$> runBody runBlock entry block
    | .map fields, .map _ => pure fields
    | _, _ => throw (.unsupportedBody keyword.name (.mismatch keyword.body))
  let record ← assemble config.output entry (request.name?.getD keyword.name) fields
  match entry.onInvoked? with
  | some hook =>
    return before ++ (← runStage runBlock .invoked hook [("InputObject", record.toValue)])
  | none => return before ++ [record.toValue]

/-- The use of a keyword as a run, without its moments. -/
def dispatch (config : Config) (runBlock : ScriptBlock → Fields → Run τ ω (List Value))
    (request : Request) : Run τ ω (List Value) :=
  (use config runBlock request).toRun

end Invocation

end KeywordScope
