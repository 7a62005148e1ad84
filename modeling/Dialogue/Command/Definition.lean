import Dialogue.Command.Basic
import Dialogue.Json.Shown
import Dialogue.Text.Integer

/-!
# Definitions of commands

A hint names its command, and each of its parameters with its index. A plain definition gives the
parameters by their places. Whatever is no object where one is expected is passed over; a value that
is no list where one is expected is an error.
-/

namespace Dialogue.Command

inductive DefinitionError
  | notIterable (kind : Text)
  | unhashable (kind : Text)
deriving DecidableEq, Repr

def DefinitionError.message : DefinitionError → Text
  | .notIterable kind => "'" ++ kind ++ "' object is not iterable"
  | .unhashable kind => "unhashable type: '" ++ kind ++ "'"

/-- The values in a value: the items of a list, the characters of a string, the field names of an
object. -/
def elements : Json → Except DefinitionError (List Json)
  | .array items => .ok items
  | .string s => .ok (s.map fun c => .string [c])
  | .object fields => .ok (fields.map fun f => .string f.1)
  | v => .error (.notIterable v.kindWord)

/-- The values in a field; a field that is empty or missing has none. -/
def listField (v : Json) : Except DefinitionError (List Json) :=
  if v.truthy then elements v else .ok []

/-- The value as a name by which commands are kept; a list or an object is none. -/
def nameOf : Json → Except DefinitionError Name
  | .array items => .error (.unhashable (Json.kindWord (.array items)))
  | .object fields => .error (.unhashable (Json.kindWord (.object fields)))
  | v => .ok ⟨v⟩

/-- A field that is empty or missing is the empty text. -/
def textField (v : Json) : Json := if v.truthy then v else .string []

/-- The types that a field gives: one word, or the words in it. -/
def typesOf : Json → Except DefinitionError (List Text)
  | .null => .ok []
  | .string s => .ok [s]
  | v => (elements v).map fun items => typeSet (items.map Json.shown)

/-- The parameter of a hint; none if the value is no object or has no index. -/
def hintParam? (v : Json) : Except DefinitionError (Option Param) :=
  match Ordinal.ofJson? (v.field "Index") with
  | none => .ok none
  | some index =>
    (typesOf (v.field "Type")).map fun types => some
      { index
        types
        dependsOn := Ordinal.ofJson? (v.field "DependsOn")
        ref := textField (v.field "Ref")
        description := textField (v.field "Description") }

/-- The parameters of a hint, in the order of their indexes. -/
def hintParams (items : List Json) : Except DefinitionError (List Param) := do
  let params ← items.mapM hintParam?
  .ok ((params.filterMap id).mergeSort fun a b => decide (a.index.value ≤ b.index.value))

/-- The command of a hint; none if it has no name. -/
def ofHint? (fields : List (Text × Json)) : Except DefinitionError (Option Command) :=
  let hint := Json.object fields
  let name := hint.field "Cmd"
  if !name.truthy then .ok none
  else do
    let items ← listField (hint.field "Params")
    let params ← hintParams items
    .ok (some ⟨name, params, textField (hint.field "Description"), fields⟩)

def isObject : Json → Bool
  | .object _ => true
  | _ => false

/-- The parameter at a place of a plain definition; none if the value is no object. -/
def placeParam? (v : Json) (place : Nat) : Except DefinitionError (Option Param) :=
  if !isObject v then .ok none
  else
    (typesOf (v.field "Type")).map fun types => some
      { index := .int place, types, ref := textField (v.field "TentativeName") }

/-- The command of a plain definition; none if it has no name. -/
def ofDefinition? (fields : List (Text × Json)) : Except DefinitionError (Option Command) :=
  let definition := Json.object fields
  let name := definition.field "Name"
  if !name.truthy then .ok none
  else do
    let items ← listField (definition.field "Args")
    let params ← items.zipIdx.mapM fun item => placeParam? item.1 item.2
    .ok (some ⟨name, params.filterMap id, textField (definition.field "Description"), fields⟩)

/-- A field that is written only if it says something. -/
def fieldIf (name : Text) (value : Json) : List (Text × Json) :=
  if value.truthy then [(name, value)] else []

def Param.toHint (param : Param) : Json :=
  let always : List (Text × Json) := [("Index", param.index.toJson), ("Ref", param.ref),
    ("Type", .array (param.types.map .string))]
  let depends := (param.dependsOn.map fun n => ("DependsOn".toList, n.toJson)).toList
  .object (always ++ depends ++ fieldIf "Description" param.description)

def toHint (command : Command) : List (Text × Json) :=
  let always : List (Text × Json) :=
    [("Cmd", command.name), ("Params", .array (command.params.map Param.toHint))]
  always ++ fieldIf "Description" command.description

end Dialogue.Command
