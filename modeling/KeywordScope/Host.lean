import KeywordScope.Invocation.Program
import KeywordScope.TypeTable

/-!
# Hosts

A host finds types and runs bodies.

* `Host`: the interface.
* `NativeHost`: a host with built-in types whose bodies are programs, found by the source of a
  script block.
* `Instruction`: the instructions from which such programs can be composed.
-/

namespace KeywordScope

/-- What a session needs of its host. -/
structure Host (τ ω : Type) where
  /-- The type that a word stands for. -/
  resolveType : String → Except HostError HostType
  /-- The program that a script block is, with named arguments. -/
  execute : ScriptBlock → Fields → Program τ ω

/-- A host whose bodies are programs. -/
structure NativeHost (τ ω : Type) where
  types : TypeTable := {}
  /-- The bodies by the sources of their script blocks, without blanks around them. -/
  bodies : List (String × (Fields → Program τ ω)) := []

namespace NativeHost

variable {τ ω : Type}

/-- The host with a body for a source, in place of an earlier one. -/
def register (host : NativeHost τ ω) (source : String) (body : Fields → Program τ ω) :
    NativeHost τ ω :=
  { host with bodies := (trim source, body) :: host.bodies }

/-- The type that a word stands for. -/
def resolveType (host : NativeHost τ ω) (token : String) : Except HostError HostType :=
  match host.types.find? token with
  | some type => .ok type
  | none => .error (.unknownType token)

/-- The body of a script block. An empty source yields nothing; any other one needs a body. -/
def execute (host : NativeHost τ ω) (block : ScriptBlock) (args : Fields) : Program τ ω :=
  let source := trim block.source
  match host.bodies.lookup source with
  | some body => body args
  | none =>
    if source = "" then .finish (.ok []) else .finish (.error (.noBody block.shown))

/-- The host behind its interface. -/
def toHost (host : NativeHost τ ω) : Host τ ω where
  resolveType := host.resolveType
  execute := host.execute

end NativeHost

/-- An instruction of a body. -/
inductive Instruction (τ ω : Type) where
  /-- Yields a value. -/
  | emit (value : Value)
  /-- Yields an argument, or a field of it; null if there is none. -/
  | argument (name : String) (field? : Option String)
  /-- Yields a map of all arguments. -/
  | arguments
  /-- Uses a keyword and yields its output. An error ends the body. -/
  | invoke (request : Request)
  /-- Uses a keyword and yields its output. An error is put down, and the body goes on. -/
  | attempt (request : Request)
  /-- Uses a keyword and yields its output. An error ends the body, and is handed on three times. -/
  | wrap (request : Request)
  /-- Ends the body with an error. -/
  | fail (error : HostError)
  /-- Puts down the state of the registry. -/
  | probe
  /-- Asks for an operation and puts down the answer. -/
  | step (operation : Operation τ ω)

namespace Instruction

variable {τ ω : Type}

/-- The value of an argument, or of a field of it. -/
def valueOf (args : Fields) (name : String) (field? : Option String) : Value :=
  let value := (args.lookup name).getD .null
  match field? with
  | none => value
  | some field => (value.field? field).getD .null

/-- The program of a body, which has yielded `items` so far. -/
def program (args : Fields) (items : List Value) : List (Instruction τ ω) → Program τ ω
  | [] => .finish (.ok items)
  | .emit value :: rest => program args (items ++ [value]) rest
  | .argument name field? :: rest => program args (items ++ [valueOf args name field?]) rest
  | .arguments :: rest => program args (items ++ [.map args]) rest
  | .invoke request :: rest =>
    .invoke request fun
      | .ok output => program args (items ++ output) rest
      | .error e => .finish (.error (.keyword e))
  | .attempt request :: rest =>
    .invoke request fun
      | .ok output => program args (items ++ output) rest
      | .error e => .note (fun _ => .caught e) (program args items rest)
  | .wrap request :: rest =>
    .invoke request fun
      | .ok output => program args (items ++ output) rest
      | .error e => .finish (.error (.keyword (.host (.keyword (.host (.keyword e))))))
  | .fail e :: _ => .finish (.error e)
  | .probe :: rest => .note .seen (program args items rest)
  | .step operation :: rest =>
    .perform operation fun result =>
      .note (fun _ => .answered result) (program args items rest)

end Instruction

end KeywordScope
