import KeywordScope.Invocation.Request
import KeywordScope.Registry.Basic
import KeywordScope.Script.Tree

/-!
# Programs of bodies

The host runs a body as a program: it uses keywords and other operations of the session one after
the other, and each answer decides how it goes on.

* `Operation`: what a session can be asked to do; `Reply`: the answers.
* `Program`: a running body.
* `Observation`: what programs put down in the journal of the session.

The parameter `τ` is the table of bindings, `ω` the type of answers of an embedder's own steps.
-/

namespace KeywordScope

/-- How the registry is held while an operation runs. -/
inductive Hold where
  /-- It can be read and changed. -/
  | free
  /-- It can be read. -/
  | shared
  /-- It can neither be read nor changed. -/
  | exclusive
  deriving DecidableEq, Repr

/-- What a session can be asked to do. -/
inductive Operation (τ ω : Type) where
  /-- Declares, or declares again, a language by a source. -/
  | declare (dsl source : String) (module? : Option String)
  /-- Declares, or declares again, a language by a tree. -/
  | declareTree (dsl : String) (tree : Script.Block) (module? : Option String)
  /-- Removes a language. -/
  | removeDsl (dsl : String)
  /-- Registers a standalone keyword. -/
  | addStandalone (name : String) (nameMode : NameMode) (body : Keyword.Body)
    (module? : Option String)
  /-- Removes a standalone keyword. -/
  | removeStandalone (name : String)
  /-- Sets what runs at an event of the member of a language at a path. -/
  | subscribe (dsl path event : String) (handler : ScriptBlock)
  /-- Uses a keyword. -/
  | invoke (request : Request)
  /-- Asks for the type that a word stands for. -/
  | resolveType (token : String)
  /-- Asks for the configuration. -/
  | configuration
  /-- Takes a step of the embedder's own on the registry. -/
  | access (step : Registry.Action τ ω)
  /-- Holds the registry while an operation runs. -/
  | whileHeld (hold : Hold) (operation : Operation τ ω)

/-- The answer to an operation. -/
inductive Reply (ω : Type) where
  | keywords (roots : List Keyword)
  | keyword (keyword : Keyword)
  | count (removed : Nat)
  | flag (changed : Bool)
  | values (items : List Value)
  | type (result : Except HostError HostType)
  | configuration (config : Config)
  | own (answer : ω)

/-- What a program puts down in the journal. -/
inductive Observation (τ ω : Type) where
  /-- The error of a keyword, after which the program went on. -/
  | caught (error : KeywordError)
  /-- The registry as it was. -/
  | seen (registry : Registry τ)
  /-- The answer to an operation. -/
  | answered (result : Except KeywordError (Reply ω))

/-- A running body. -/
inductive Program (τ ω : Type) where
  /-- The body ends with its items, or fails. -/
  | finish (outcome : Except HostError (List Value))
  /-- The body asks for an operation, and goes on with the answer. -/
  | perform (operation : Operation τ ω) (next : Except KeywordError (Reply ω) → Program τ ω)
  /-- The body puts down what it observes of the registry, and goes on. -/
  | note (observe : Registry τ → Observation τ ω) (next : Program τ ω)

/-- A running body asks for the use of a keyword. -/
def Program.invoke {τ ω : Type} (request : Request)
    (next : Except KeywordError (List Value) → Program τ ω) : Program τ ω :=
  .perform (.invoke request) fun
    | .ok (.values items) => next (.ok items)
    | .ok _ => next (.ok [])
    | .error e => next (.error e)

end KeywordScope
