import Dialogue.Json.Double
import Dialogue.Table

/-!
# JSON values

Integers are unbounded and apart from floating-point numbers. An object keeps its fields in the
order of their first appearance, and a repeated field keeps its last value.
-/

namespace Dialogue

inductive Json
  | null
  | bool (b : Bool)
  | int (n : Int)
  | double (d : Json.Double)
  | string (s : Text)
  | array (items : List Json)
  | object (fields : List (Text × Json))

namespace Json

instance : Inhabited Json := ⟨.null⟩

/-- The fields as an object; a repeated name keeps its first place and its last value. -/
def ofFields (fields : List (Text × Json)) : Json := .object (Table.ofList fields).entries

/-- The value of a field; `null` where there is none. -/
def field (name : Text) : Json → Json
  | .object fields => ((fields.find? fun f => f.1 == name).map (·.2)).getD .null
  | _ => .null

/-- Whether the value is neither null, false, zero nor empty. -/
def truthy : Json → Bool
  | .null => false
  | .bool b => b
  | .int n => n != 0
  | .double d => !d.isZero
  | .string s => !s.isEmpty
  | .array items => !items.isEmpty
  | .object fields => !fields.isEmpty

def kindWord : Json → Text
  | .null => "NoneType"
  | .bool _ => "bool"
  | .int _ => "int"
  | .double _ => "float"
  | .string _ => "str"
  | .array _ => "list"
  | .object _ => "dict"

end Json

end Dialogue
