import KeywordScope.Cli.Run

/-!
# The command line

* `main`: reads the files of the system, and writes and ends as `Cli.run` says.
-/

namespace KeywordScope

/-- The number of an error of the system, which may come negated. -/
def systemErrorNumber (code : UInt32) : Nat :=
  min code.toNat (0 - code).toNat

/-- Why the system could not read something. -/
def ReadFault.ofSystem : IO.Error → ReadFault
  | .noFileOrDirectory .. => .notFound
  | .noSuchThing .. => .notFound
  | .inappropriateType _ code _ =>
    if systemErrorNumber code = 20 then .notDirectory else .isDirectory
  | .invalidArgument file? code details =>
    if systemErrorNumber code = 36 then .nameTooLong
    else .other (toString (IO.Error.invalidArgument file? code details))
  | error => .other (toString error)

/-- The outcome of reading, in place of an error of the system. -/
def readSafely {α : Type} (action : IO (Except ReadFault α)) : IO (Except ReadFault α) :=
  tryCatch action fun error => return .error (.ofSystem error)

/-- Reads the files of the system. -/
def systemFiles : FileAccess IO where
  kind? path :=
    tryCatch (do
      let place ← IO.FS.realPath path
      return some (if ← place.isDir then .directory else .file))
      fun _ => return none
  read path := readSafely do
    let bytes ← IO.FS.readBinFile path
    match String.fromUTF8? bytes with
    | some text => return .ok text
    | none => return .error .notText
  names path := readSafely do
    let place ← IO.FS.realPath path
    return .ok ((← place.readDir).toList.map (·.fileName))

end KeywordScope

/-- The program `kwdsl`. -/
def main (arguments : List String) : IO UInt32 := do
  let outcome ← KeywordScope.Cli.run KeywordScope.systemFiles
    (← IO.getEnv "KEYWORD_DSL_CONFIG_DIR") arguments
  (← IO.getStdout).putStr outcome.output
  (← IO.getStderr).putStr outcome.errors
  return outcome.code.toUInt32
