import Dialogue.Command.Schema
import Dialogue.Script.Invocation

/-!
# The command that writes a value

A command writes the value behind a placeholder if one of its parameters takes the placeholder's
slot and the argument there is the placeholder's tag.
-/

namespace Dialogue.Trace

inductive Error
  | overlong (e : OverlongInteger)
  | noSuchArgument
  | noIndex
  | notAPath (e : Path.NullCharacter)
deriving DecidableEq, Repr

def Error.message : Error → Text
  | .overlong e => e.message
  | .noSuchArgument => "list index out of range"
  | .noIndex => "cannot fit 'int' into an index-sized integer"
  | .notAPath e => e.message

/-- How far from the end an index can count at most. -/
def maxFromEnd : Nat := 0x8000000000000000

/-- The argument of an index: none past the end. A negative index counts from the end, and past the
start it is an error. -/
def argument? (arguments : List Text) : Int → Except Error (Option Text)
  | .ofNat n => .ok arguments[n]?
  | .negSucc n =>
    if n < arguments.length then .ok arguments[arguments.length - (n + 1)]?
    else if n < maxFromEnd then .error .noSuchArgument
    else .error .noIndex

def writesTag (tag : Int) (arguments : List Text) (param : Command.Param) : Except Error Bool :=
  match argument? arguments param.index.value with
  | .error e => .error e
  | .ok none => .ok false
  | .ok (some argument) =>
    match Text.leadingInt? argument with
    | .error e => .error (.overlong e)
    | .ok value => .ok (value == some tag)

/-- Whether the argument of some parameter is the tag. -/
def someWritesTag (tag : Int) (arguments : List Text) : List Command.Param → Except Error Bool
  | [] => .ok false
  | param :: rest =>
    match writesTag tag arguments param with
    | .error e => .error e
    | .ok true => .ok true
    | .ok false => someWritesTag tag arguments rest

def Invocation.writes (schema : Schema) (tag : Int) (slot : Slot) (call : Script.Invocation) :
    Except Error Bool :=
  match schema.find? ⟨.string call.name⟩ with
  | none => .ok false
  | some command => someWritesTag tag call.arguments (command.writers slot)

/-- The name of the first call that writes the tag to the slot. -/
def firstWriter? (schema : Schema) (tag : Int) (slot : Slot) :
    List Script.Invocation → Except Error (Option Text)
  | [] => .ok none
  | call :: rest =>
    match Invocation.writes schema tag slot call with
    | .error e => .error e
    | .ok true => .ok (some call.name)
    | .ok false => firstWriter? schema tag slot rest

def writer? (schema : Schema) (tag : Int) (slot : Slot) (line : Text) :
    Except Error (Option Text) :=
  firstWriter? schema tag slot (Script.invocations (Script.code line))

end Dialogue.Trace
