import Dialogue.Text.Basic

/-!
# Log lines

Every part of the library that can skip a file or finish a load says so in log lines, which it
returns in order beside its result.
-/

namespace Dialogue.Log

/-- How much a line matters. -/
inductive Level
  | debug
  | info
  | warning
  | error
deriving DecidableEq, Repr

/-- The level in capitals, as it stands in front of a line. -/
def Level.name : Level → Text
  | .debug => "DEBUG"
  | .info => "INFO"
  | .warning => "WARNING"
  | .error => "ERROR"

/-- The level in small letters, as an observer gets it. -/
def Level.word : Level → Text
  | .debug => "debug"
  | .info => "info"
  | .warning => "warning"
  | .error => "error"

/-- The number by which levels are compared. -/
def Level.rank : Level → Nat
  | .debug => 10
  | .info => 20
  | .warning => 30
  | .error => 40

structure Entry where
  level : Level
  text : Text
deriving DecidableEq, Repr

def Entry.line (entry : Entry) : Text := entry.level.name ++ " " ++ entry.text

end Dialogue.Log
