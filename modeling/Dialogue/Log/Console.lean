import Dialogue.Log

/-!
# Printing the log

A logger hands the entries from its own level on to its consoles, and each console prints those from
the console's level on. A logger gets one console only, however often it is set up.
-/

namespace Dialogue.Log

/-- The level of a logger, and the levels of its consoles. -/
structure Logger where
  level : Int := 0
  consoles : List Int := []
deriving DecidableEq, Repr

/-- The logger with everything from the debug level on, and with a console. A console that is there
already keeps its level. -/
def Logger.setUp (logger : Logger) (level : Int) : Logger :=
  { level := Level.debug.rank
    consoles := if logger.consoles.isEmpty then [level] else logger.consoles }

/-- The entry as a console prints it. -/
def Entry.printed (entry : Entry) : Text := entry.level.name ++ " - " ++ entry.text

def Logger.print (logger : Logger) (entry : Entry) : List Text :=
  if entry.level.rank < logger.level then []
  else (logger.consoles.filter fun level : Int => decide (level ≤ entry.level.rank)).map fun _ =>
    entry.printed

end Dialogue.Log
