import KeywordScope.Error

/-!
# Events

* `Event`: the moments of a use of a keyword at which a hook can run.
* `Event.ofWord`: the event that a word names.
-/

namespace KeywordScope

/-- A moment of a use of a keyword. -/
inductive Event where
  /-- Before the body. What the hook yields comes first in the output. -/
  | invoking
  /-- After the body. The hook is given the record, and what it yields replaces it. -/
  | invoked
  deriving DecidableEq, Repr

namespace Event

/-- The word for an event. -/
def word : Event → String
  | invoking => "OnInvoking"
  | invoked => "OnInvoked"

/-- The event that a word names, in any spelling of its letters. -/
def ofWord (text : String) : Except KeywordError Event :=
  match [invoking, invoked].find? fun event => sameName event.word text with
  | some event => .ok event
  | none => .error (.invalidArgument "" (.unknownEvent text))

end Event

end KeywordScope
