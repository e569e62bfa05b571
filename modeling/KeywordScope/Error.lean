import KeywordScope.Keyword
import KeywordScope.SyntaxError

/-!
# Errors

* `HostError`: what a host reports: a failing body, an unknown type, a binding that could not be
  changed, or the error of a keyword that a body used.
* `KeywordError`: what the declaration, registration or use of a keyword reports. Its causes are
  `StateFault`, `OperationFault`, `BodyFault` and `ArgumentFault`.
* `HostError.message`, `KeywordError.message`: the wording.
* `KeywordError.rootCause`: the error of the innermost keyword.
-/

namespace KeywordScope

/-- Why a binding could not be changed. -/
inductive BindingFault where
  /-- The name has no characters. -/
  | emptyName
  /-- The table does not allow the change. -/
  | refused
  deriving DecidableEq, Repr

/-- The wording of a fault. -/
def BindingFault.text : BindingFault → String
  | emptyName => "empty name"
  | refused => "refused"

/-- The state of the registry does not allow a step. -/
inductive StateFault where
  /-- The parent of a new keyword is no member of a language. -/
  | foreignParent (parent : Keyword.Id) (path : String)
  /-- A language has a keyword with this path. -/
  | pathTaken (path dsl : String)
  /-- A keyword has this identity. -/
  | idTaken (id : Keyword.Id)
  /-- No keyword has this identity. -/
  | unknownId (id : Keyword.Id)
  /-- Several standalone keywords of one name are visible. -/
  | ambiguousStandalone (name : String)
  /-- Several keywords of languages with one name are visible. -/
  | ambiguousMember (name : String)
  /-- A scope was left that is not the innermost one. -/
  | outOfOrder (expected popped : Keyword.Id)
  /-- The registry is in use, so that it cannot be changed. -/
  | inUse
  /-- The registry is being changed, so that it cannot be read. -/
  | inChange
  deriving DecidableEq, Repr

/-- The wording of a fault. -/
def StateFault.text : StateFault → String
  | foreignParent parent path =>
    "parent keyword " ++ parent.describe ++ " of '" ++ path ++ "' is not a DSL keyword"
  | pathTaken path dsl => "path '" ++ path ++ "' is already registered in DSL '" ++ dsl ++ "'"
  | idTaken id => "keyword id " ++ id.describe ++ " is already registered"
  | unknownId id =>
    "The keyword with id " ++ id.describe ++ " was not found in the keyword database."
  | ambiguousStandalone name =>
    "multiple standalone keywords with the name '" ++ name ++
      "' detected. This should never happen."
  | ambiguousMember name =>
    "multiple DSL keywords with the name '" ++ name ++ "' are visible. This should never happen."
  | outOfOrder expected popped =>
    "scope stack out of order: expected " ++ expected.describe ++ " on top, popped " ++
      popped.describe
  | inUse => "keyword registry is already borrowed"
  | inChange => "keyword registry is being modified"

/-- A step is not possible. -/
inductive OperationFault where
  /-- A standalone keyword cannot be hidden. -/
  | hideStandalone (name : String)
  /-- A standalone keyword has no scope. -/
  | enterStandalone (name : String)
  /-- No scope is entered. -/
  | noScope
  /-- A scope was already left. -/
  | scopeLeft (id : Keyword.Id)
  /-- The dispatching command is not called by its own name. -/
  | directCall (command : String)
  /-- Keywords take no input from a pipeline. -/
  | pipelineInput
  /-- The keyword is hidden. -/
  | notVisible (name : String)
  deriving DecidableEq, Repr

/-- The wording of a fault. -/
def OperationFault.text : OperationFault → String
  | hideStandalone name => "attempt to hide standalone keyword '" ++ name ++ "'."
  | enterStandalone name =>
    "pushing a standalone keyword (" ++ name ++
      ") onto the dynamic keyword stack. This should never happen."
  | noScope =>
    "popping a DSL keyword off of dynamic keyword stack when the dynamic keyword stack is " ++
      "empty. This should never happen."
  | scopeLeft id => "scope of keyword " ++ id.describe ++ " was already left"
  | directCall command =>
    "The " ++ command ++ " command is reserved for keyword use only. Do not invoke it directly. " ++
      "Invoke it using keyword bindings instead."
  | pipelineInput =>
    "The input object cannot be bound to any parameters for the keyword because keywords do not " ++
      "take pipeline input"
  | notVisible name => "keyword '" ++ name ++ "' is not visible in the current scope"

/-- The body given to a keyword does not fit. -/
inductive BodyFault where
  /-- The value, shown here, is neither a script block nor a map. -/
  | unusable (shown : String)
  /-- A body of the other kind is declared. -/
  | mismatch (declared : Keyword.Body)
  deriving DecidableEq, Repr

/-- The wording of a fault. -/
def BodyFault.text : BodyFault → String
  | unusable shown =>
    "Cannot convert '" ++ shown ++ "' to either of the types 'ScriptBlock' or 'Hashtable' that " ++
      "are required for the keyword body."
  | mismatch declared =>
    "the " ++ declared.describe ++ " body of this keyword must be " ++
      match declared with
      | .map _ => "a property map (hashtable)"
      | .executable => "a script block"

/-- An argument is wrong. -/
inductive ArgumentFault where
  /-- The word is not the name of an event. -/
  | unknownEvent (word : String)
  /-- The name of a language is blank. -/
  | blankLanguage
  /-- A name is missing. -/
  | nameRequired
  /-- A name is given to a keyword that takes none. -/
  | nameNotTaken
  /-- A map body sets a property that is not declared. -/
  | unknownProperty (key : String)
  /-- A map body lacks a required property. -/
  | missingProperty (name : String)
  /-- A body yields a field that every output has. -/
  | reservedField (key : String)
  deriving DecidableEq, Repr

/-- The wording of a fault. -/
def ArgumentFault.text : ArgumentFault → String
  | unknownEvent word =>
    "'" ++ word ++ "' is not a keyword event; expected OnInvoking or OnInvoked"
  | blankLanguage => "the domain-specific language name must not be empty"
  | nameRequired => "a name is required"
  | nameNotTaken => "the keyword does not take a name"
  | unknownProperty key => "'" ++ key ++ "' is not a property of this keyword"
  | missingProperty name => "required property '" ++ name ++ "' is missing"
  | reservedField key =>
    "the body produced a field named '" ++ key ++ "', which is reserved for the keyword output"

mutual

/-- An error of the host. -/
inductive HostError where
  /-- A body failed, for a reason of its own. -/
  | failed (message : String)
  /-- No body is known for a script block, shown here. -/
  | noBody (shown : String)
  /-- No type has this name. -/
  | unknownType (token : String)
  /-- A binding could not be changed. -/
  | binding (name : String) (fault : BindingFault)
  /-- A keyword that a body used failed. -/
  | keyword (error : KeywordError)

/-- An error of a keyword. -/
inductive KeywordError where
  /-- The declaration is wrong. -/
  | grammar (error : SyntaxError)
  /-- No visible keyword has the name. -/
  | notFound (name : String)
  /-- The state does not allow the step. -/
  | invalidState (fault : StateFault)
  /-- The step is not possible. -/
  | invalidOperation (fault : OperationFault)
  /-- The body does not fit the keyword. -/
  | unsupportedBody (keyword : String) (fault : BodyFault)
  /-- An argument does not fit the keyword. -/
  | invalidArgument (keyword : String) (fault : ArgumentFault)
  /-- The host failed. -/
  | host (error : HostError)

end

mutual

/-- The wording of an error of the host. -/
def HostError.message : HostError → String
  | .failed message => message
  | .noBody shown => "no native body registered for " ++ shown
  | .unknownType token => token ++ " is not a valid type name."
  | .binding name fault => "binding '" ++ name ++ "' could not be updated: " ++ fault.text
  | .keyword error => error.message

/-- The wording of an error of a keyword. -/
def KeywordError.message : KeywordError → String
  | .grammar error => error.message
  | .notFound name =>
    "Unable to find a keyword with name '" ++ name ++ "' in the current scope."
  | .invalidState fault => "Invalid keyword state: " ++ fault.text
  | .invalidOperation fault => "Invalid operation: " ++ fault.text
  | .unsupportedBody keyword fault =>
    "Unsupported body for keyword '" ++ keyword ++ "': " ++ fault.text
  | .invalidArgument keyword fault =>
    "Invalid argument for keyword '" ++ keyword ++ "': " ++ fault.text
  | .host error => "Host error: " ++ error.message

end

/-- The error of the innermost keyword, where a host error only hands on that of a keyword. -/
def KeywordError.rootCause : KeywordError → KeywordError
  | .host (.keyword inner) => inner.rootCause
  | error => error

end KeywordScope
