/-!
# Script blocks

* `ScriptBlock`: a body that only the host can run, known by its source.
-/

namespace KeywordScope

/-- A body that only the host can run. -/
structure ScriptBlock where
  source : String
  deriving DecidableEq, Repr

/-- The block as it is shown. -/
def ScriptBlock.shown (block : ScriptBlock) : String :=
  "\x7b " ++ block.source ++ " \x7d"

end KeywordScope
