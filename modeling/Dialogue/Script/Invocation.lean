import Dialogue.Script.Comment
import Dialogue.Text.Blank

/-!
# Command calls on a line

A command is called by its name in capitals and a list in parentheses. Two things are kept while a
line is read: whether a literal is open, and how many parentheses are. A comma parts arguments
outside literals and outside inner parentheses.
-/

namespace Dialogue.Script

def isNameStart (c : Char) : Bool := c.isUpper || c == '_'

def isNameChar (c : Char) : Bool := isNameStart c || c.isDigit

/-- The command name that ends where a line is being read, if there is one, and whether blanks
follow it. -/
abbrev Pending := Option (Text × Bool)

/-- The name after one more character. A blank closes a name, and the next letter then starts
another one. -/
def nextPending (pending : Pending) (c : Char) : Pending :=
  if isNameChar c then
    match pending with
    | some (name, false) => some (name ++ [c], false)
    | _ => if isNameStart c then some ([c], false) else none
  else if Text.isBlank c then pending.map fun p => (p.1, true)
  else none

/-- A command name with its opening parenthesis. -/
structure Opening where
  name : Text
  /-- The offset just after the parenthesis. -/
  start : Nat
  /-- Whether the name is part of a literal. -/
  quoted : Bool
deriving DecidableEq, Repr

/-- The openings in the rest of a line. -/
def openingsFrom (offset : Nat) (inside : Bool) (pending : Pending) : Text → List Opening
  | [] => []
  | c :: rest =>
    let inside' := if c = quote then !inside else inside
    let tail := openingsFrom (offset + 1) inside' (nextPending pending c) rest
    match c, pending with
    | '(', some (name, _) => ⟨name, offset + 1, inside⟩ :: tail
    | _, _ => tail

/-- The openings of a line from left to right. -/
def openings (line : Text) : List Opening := openingsFrom 0 false none line

/-- How many openings of a line are looked at, those in literals included. -/
def maxOpenings : Nat := 100

/-- The openings of calls: those of the first openings that no literal holds. -/
def calls (line : Text) : List Opening :=
  ((openings line).take maxOpenings).filter fun o => !o.quoted

/-- The parts of an argument list: the text of each argument up to the parenthesis that closes the
list, or up to the end. -/
def argumentParts (inside : Bool) (depth : Nat) : Text → List Text
  | [] => [[]]
  | c :: rest =>
    if c = quote then Text.consFirst c (argumentParts (!inside) depth rest)
    else if inside then Text.consFirst c (argumentParts inside depth rest)
    else if c = '(' then Text.consFirst c (argumentParts inside (depth + 1) rest)
    else if c = ')' then
      match depth with
      | 0 => [[]]
      | depth + 1 => Text.consFirst c (argumentParts inside depth rest)
    else if c = ',' ∧ depth = 0 then [] :: argumentParts inside depth rest
    else Text.consFirst c (argumentParts inside depth rest)

/-- The trimmed arguments of a list whose parenthesis has just been opened. A list with nothing in
it has no arguments. -/
def arguments (text : Text) : List Text :=
  let parts := (argumentParts false 0 text).map Text.trim
  if parts == [[]] then [] else parts

/-- The line from an offset on; a negative offset counts from the end. -/
def dropTo (offset : Int) (line : Text) : Text :=
  match offset with
  | .ofNat n => line.drop n
  | .negSucc n => line.drop (line.length - (n + 1))

def argumentsAt (line : Text) (start : Int) : List Text := arguments (dropTo start line)

structure Invocation where
  name : Text
  arguments : List Text
deriving DecidableEq, Repr

/-- The calls on a line, an outer one before the calls in its arguments. -/
def invocations (line : Text) : List Invocation :=
  (calls line).map fun o => ⟨o.name, arguments (line.drop o.start)⟩

/-- A call whose list is open at a position. -/
structure Enclosing where
  name : Text
  start : Nat
  /-- The argument that the position falls in. -/
  argument : Nat
deriving DecidableEq, Repr

/-- The number of the argument that the end of the text falls in, if the list is still open
there. -/
def openArgument? (inside : Bool) (depth argument : Nat) : Text → Option Nat
  | [] => some argument
  | c :: rest =>
    if c = quote then openArgument? (!inside) depth argument rest
    else if inside then openArgument? inside depth argument rest
    else if c = '(' then openArgument? inside (depth + 1) argument rest
    else if c = ')' then
      match depth with
      | 0 => none
      | depth + 1 => openArgument? inside depth argument rest
    else if c = ',' ∧ depth = 0 then openArgument? inside depth (argument + 1) rest
    else openArgument? inside depth argument rest

/-- A call as one that encloses a position, if it does. -/
def Opening.enclosing? (line : Text) (position : Nat) (o : Opening) : Option Enclosing :=
  if o.start ≤ position then
    (openArgument? false 0 0 ((line.take position).drop o.start)).map fun k => ⟨o.name, o.start, k⟩
  else none

/-- The innermost call whose list is open at the position. -/
def enclosing? (line : Text) (position : Int) : Option Enclosing :=
  match position with
  | .ofNat position => ((calls line).filterMap (Opening.enclosing? line position)).getLast?
  | .negSucc _ => none

end Dialogue.Script
