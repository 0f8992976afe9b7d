/-!
Log lines with their levels.
-/

namespace ResourceGraph

inductive Level where
  | info
  | warning
  | error
deriving DecidableEq

def Level.word : Level → String
  | .info => "INFO"
  | .warning => "WARNING"
  | .error => "ERROR"

structure LogLine where
  level : Level
  message : String

def LogLine.text (l : LogLine) : String := l.level.word ++ " " ++ l.message

/-- The lines that are shown when details are not asked for. -/
def withoutDetails (ls : List LogLine) : List LogLine := ls.filter (·.level ≠ .info)

end ResourceGraph
