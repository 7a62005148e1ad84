import Dialogue.Json.Basic
import Dialogue.Text.Quoted

/-!
# A value as a word of text

Where a definition file holds another value in the place of a word, the value is taken by its
text: a string as it is, and anything else with quoted strings inside it.
-/

namespace Dialogue.Json

mutual

/-- A value as it stands inside another one. -/
def inner : Json → Text
  | .null => "None"
  | .bool true => "True"
  | .bool false => "False"
  | .int n => Text.ofInt n
  | .double d => d.write "inf" "nan"
  | .string s => Text.quoted s
  | .array items => '[' :: innerItems items
  | .object fields => '\x7b' :: innerFields fields

/-- The items of a list, and the closing bracket. -/
def innerItems : List Json → Text
  | [] => "]"
  | [item] => inner item ++ "]"
  | item :: rest => inner item ++ ", " ++ innerItems rest

/-- The fields of an object, and the closing brace. -/
def innerFields : List (Text × Json) → Text
  | [] => "\x7d"
  | [(name, item)] => Text.quoted name ++ ": " ++ inner item ++ "\x7d"
  | (name, item) :: rest => Text.quoted name ++ ": " ++ inner item ++ ", " ++ innerFields rest

end

/-- The text that stands for a value: a string itself, and any other value as it is shown. -/
def shown : Json → Text
  | .string s => s
  | v => inner v

end Dialogue.Json
