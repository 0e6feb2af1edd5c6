/-!
# Log records
-/

namespace Forwarder.Log

/-- How much a record matters. -/
inductive Level where
  | debug
  | warning
  deriving Repr, DecidableEq

/-- The name of a level in front of a record. -/
def Level.name : Level → String
  | debug => "DEBUG"
  | warning => "WARNING"

/-- A message and its level. -/
structure Record where
  level : Level
  message : String
  deriving Repr, DecidableEq

/-- The line that shows a record. -/
def Record.line (r : Record) : String := s!"[{r.level.name}] {r.message}"

/-- The messages of one level. -/
def messages (level : Level) (log : List Record) : List String :=
  (log.filter fun r => r.level = level).map Record.message

end Forwarder.Log
