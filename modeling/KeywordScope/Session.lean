import KeywordScope.Declaration
import KeywordScope.Invocation.Dispatch
import KeywordScope.Invocation.Event

/-!
# Sessions

* `Session`: a host and a configuration. All state is in `State`.
* `Session.invoke`: a use of a keyword, whose body may use further keywords, up to a depth.
* `Session.perform`: any operation.
-/

namespace KeywordScope

/-- A host and a configuration. -/
structure Session (τ ω : Type) where
  host : Host τ ω
  config : Config := {}

namespace Session

variable {τ ω : Type} [BindingTable τ]

/-- The state without keywords over a table of bindings. -/
def start (session : Session τ ω) (bindings : τ) : State τ ω :=
  { registry := .ofConfig session.config bindings }

/-- The type that a word in a declaration stands for. -/
def findType (session : Session τ ω) (token : String) : Option HostType :=
  (session.host.resolveType token).toOption

/-- A step on the registry, which is refused while the registry is held. -/
def change {α : Type} (held : Hold) (action : Registry.Action τ α) : Run τ ω α :=
  match held with
  | .free => Run.onRegistry action
  | _ => throw (.invalidState .inUse)

/-- Declares a language by a tree. -/
def declareTree (session : Session τ ω) (held : Hold) (dsl : String) (tree : Script.Block)
    (module? : Option String) : Run τ ω (List Keyword) :=
  match checkLanguageName dsl with
  | .error e => throw e
  | .ok _ =>
    change held (Registry.declare session.config.output session.findType dsl tree module?)

/-- Declares a language by a source. Errors are located in the source. -/
def declare (session : Session τ ω) (held : Hold) (dsl source : String)
    (module? : Option String) : Run τ ω (List Keyword) :=
  match readDeclaration dsl source with
  | .error e => throw e
  | .ok tree =>
    change held <| Registry.locatedIn source <|
      Registry.declare session.config.output session.findType dsl tree module?

/-- Registers a standalone keyword with a new identity. -/
def addStandalone (name : String) (nameMode : NameMode) (body : Keyword.Body)
    (module? : Option String) : Registry.Action τ Keyword := do
  let id ← Registry.allocate
  Registry.registerStandalone { id, name, nameMode, body, module? }

/-- Sets what runs at an event of the member of a language at a path. -/
def subscribe (dsl path : String) (event : Event) (handler : ScriptBlock) :
    Registry.Action τ Bool :=
  Registry.setHook dsl path fun entry =>
    match event with
    | .invoking => { entry with onInvoking? := some handler }
    | .invoked => { entry with onInvoked? := some handler }

/-- Performs an operation, given a way to use keywords. -/
def performWith (session : Session τ ω) (invoke : Request → Run τ ω (List Value)) (held : Hold) :
    Operation τ ω → Run τ ω (Reply ω)
  | .declare dsl source module? => .keywords <$> session.declare held dsl source module?
  | .declareTree dsl tree module? => .keywords <$> session.declareTree held dsl tree module?
  | .removeDsl dsl => .count <$> change held (Registry.removeDsl dsl)
  | .addStandalone name nameMode body module? =>
    .keyword <$> change held (addStandalone name nameMode body module?)
  | .removeStandalone name => .flag <$> change held (Registry.removeStandalone name)
  | .subscribe dsl path word handler => do
    let event ← Event.ofWord word
    .flag <$> change held (subscribe dsl path event handler)
  | .invoke request =>
    match held with
    | .free => .values <$> invoke request
    | _ => throw (.invalidState .inUse)
  | .resolveType token => return .type (session.host.resolveType token)
  | .configuration => return .configuration session.config
  | .access step => .own <$> change held step
  | .whileHeld hold operation =>
    match hold, held with
    | .free, _ => session.performWith invoke held operation
    | .shared, .exclusive => throw (.invalidState .inChange)
    | .shared, _ => session.performWith invoke .shared operation
    | .exclusive, .free => session.performWith invoke .exclusive operation
    | .exclusive, _ => throw (.invalidState .inUse)

/-- Runs a script block, given a way to use keywords. -/
def runBlock (session : Session τ ω) (invoke : Request → Run τ ω (List Value))
    (block : ScriptBlock) (args : Fields) : Run τ ω (List Value) :=
  (session.host.execute block args).run (session.performWith invoke .free)

/-- Uses a keyword. Uses within bodies may nest up to the given depth. -/
def invoke (session : Session τ ω) : Nat → Request → Run τ ω (List Value)
  | 0 => fun _ => Run.exhausted
  | depth + 1 => Invocation.dispatch session.config (session.runBlock (session.invoke depth))

/-- The moments of a use of a keyword from a state on. Uses within its bodies have moments of their
own, which are not among them. -/
def moments (session : Session τ ω) : Nat → Request → State τ ω → List (Moment τ)
  | 0 => fun _ _ => []
  | depth + 1 => fun request =>
    (Invocation.use session.config (session.runBlock (session.invoke depth)) request).moments

/-- Performs an operation. Uses of keywords may nest up to the given depth. -/
def perform (session : Session τ ω) (depth : Nat) (operation : Operation τ ω) :
    Run τ ω (Reply ω) :=
  session.performWith (session.invoke depth) .free operation

end Session

end KeywordScope
