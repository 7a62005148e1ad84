import Dialogue.Json.Basic

/-!
# Values that stand for paths

A path in the settings is a text. Another value is refused when the path is used, in words that
depend on whether it is the path itself or is read from a folder.
-/

namespace Dialogue.Settings

inductive PathError
  | notAPath (kind : Text)
  | notAPart (kind : Text)
deriving DecidableEq, Repr

def PathError.message : PathError → Text
  | .notAPath kind => "expected str, bytes or os.PathLike object, not " ++ kind
  | .notAPart kind =>
    "join() argument must be str, bytes, or os.PathLike object, not '" ++ kind ++ "'"

def pathOf : Json → Except PathError Text
  | .string path => .ok path
  | v => .error (.notAPath v.kindWord)

/-- The value as a path that is read from a folder. -/
def partOf : Json → Except PathError Text
  | .string path => .ok path
  | v => .error (.notAPart v.kindWord)

end Dialogue.Settings
