import Dialogue.Json.Basic

/-!
# Commands and their parameters

A command is known by its name and by the types of its parameters. A parameter of the type
`TagIndex` takes the slot of a name, one of the type `NumberIndex` that of a number. Definition
files are edited by hand, so where a field holds a value that nobody expected it is kept.
-/

namespace Dialogue

/-- What a placeholder shows. -/
inductive Slot
  | name
  | number
deriving DecidableEq, Repr

namespace Slot

/-- The slot of a placeholder's group: numbers have group 2, and every other group is names. -/
def ofGroup (group : Int) : Slot := if group = 2 then .number else .name

/-- The parameter type that takes the slot. -/
def typeName : Slot → Text
  | .name => "TagIndex"
  | .number => "NumberIndex"

end Slot

namespace Command

/-- A whole number in a definition, where a truth value counts as one. -/
inductive Ordinal
  | int (n : Int)
  | flag (b : Bool)
deriving DecidableEq, Repr

namespace Ordinal

def value : Ordinal → Int
  | .int n => n
  | .flag b => if b then 1 else 0

/-- The number that a value stands for, if it does for one. -/
def ofJson? : Json → Option Ordinal
  | .int n => some (.int n)
  | .bool b => some (.flag b)
  | _ => none

def toJson : Ordinal → Json
  | .int n => .int n
  | .flag b => .bool b

end Ordinal

/-- A parameter. Its types are in the order of code points and without repetition. -/
structure Param where
  index : Ordinal
  types : List Text := []
  dependsOn : Option Ordinal := none
  ref : Json := .string []
  description : Json := .string []

def Param.takes (slot : Slot) (param : Param) : Bool := param.types.contains slot.typeName

/-- Types without repetition in the order of code points. -/
def typeSet (types : List Text) : List Text := Text.sort types.eraseDups

end Command

/-- A command as a definition file describes it. -/
structure Command where
  name : Json
  params : List Command.Param := []
  description : Json := .string []
  /-- The fields that it was read from; none if it was made otherwise. -/
  source : List (Text × Json) := []

namespace Command

def writers (command : Command) (slot : Slot) : List Param :=
  command.params.filter (Param.takes slot)

/-- Whether two names are those of one command. Numbers and truth values of one value are one
name. -/
def sameName : Json → Json → Bool
  | .string s, .string t => s == t
  | .double d, .double e => d.same e
  | .double d, other => (Ordinal.ofJson? other).any fun n => d.toInt? == some n.value
  | other, .double d => (Ordinal.ofJson? other).any fun n => d.toInt? == some n.value
  | a, b =>
    match Ordinal.ofJson? a, Ordinal.ofJson? b with
    | some m, some n => m.value == n.value
    | _, _ => false

/-- A name by which commands are kept. -/
structure Name where
  value : Json

instance : BEq Name := ⟨fun a b => sameName a.value b.value⟩

end Command

end Dialogue
