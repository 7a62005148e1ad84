import Dialogue.Message.Basic
import Dialogue.Script.Index
import Dialogue.Trace.Writer

/-!
# Searching backwards for a writer

From the line where a placeholder is shown the script is read upwards. A line with a writer ends the
search. A label ends the block that is read, and every line that names the label is then a place to
go on from; a label is expanded once. Places are taken in the order in which they were found, so the
first writer is one that the fewest labels lie in front of. The number of places is limited.
-/

namespace Dialogue.Trace

/-- The places that a search takes at most, if nothing else is said. -/
def defaultLimit : Int := 50

/-- The placeholder that is asked about, and the line where it is shown. -/
structure Request where
  file : Text
  line : Int
  tag : Int
  group : Int := defaultGroup
deriving DecidableEq, Repr

/-- A place to read upwards from. A label led there from the block of an earlier place, which is
known by its number; nothing led to the first place. -/
structure Node where
  file : Text
  line : Int
  via : Option Text := none
  parent : Option Nat := none
deriving DecidableEq, Repr

/-- Where the writer stands, and the labels on the way from it to the line where the placeholder is
shown. -/
structure Finding where
  command : Text
  file : Text
  line : Nat
  path : List Text
deriving DecidableEq, Repr

/-- How a search ends. -/
inductive Outcome
  | resolved (finding : Finding)
  | unresolved
  | budgetExceeded
deriving DecidableEq, Repr

def Outcome.word : Outcome → Text
  | .resolved _ => "resolved"
  | .unresolved => "unresolved"
  | .budgetExceeded => "budget_exceeded"

def Outcome.finding? : Outcome → Option Finding
  | .resolved finding => some finding
  | _ => none

/-- The end of a search, the places that it took, and the files that it could not read. -/
structure Result where
  outcome : Outcome
  steps : Nat
  unreadable : List Text
deriving DecidableEq, Repr

def Result.command? (result : Result) : Option Text := result.outcome.finding?.map (·.command)

/-- What does not change while a search runs. -/
structure Query where
  index : Script.Index
  schema : Schema
  tag : Int
  slot : Slot

/-- What a search reads at a path: lines, or none where it cannot. -/
abbrev Files := Text → Except Path.NullCharacter (Option (List Text))

/-- All places that a search has found, of which it has taken as many as it made steps, and what
else it knows. -/
structure Arena where
  nodes : List Node
  visited : List Text := []
  steps : Nat := 0
  unreadable : List Text := []

/-- What a block that is read upwards ends with. -/
inductive Stop
  | writer (command : Text) (line : Nat)
  | label (name : Text)
  | top
deriving DecidableEq, Repr

/-- The lines above a place with their numbers, the nearest one first. A place beyond the end of the
file is one at its end. -/
def linesAbove (lines : List Text) (line : Int) : List (Text × Nat) :=
  (lines.take line.toNat).zipIdx.reverse

namespace Query

def ofRequest (index : Script.Index) (schema : Schema) (request : Request) : Query :=
  ⟨index, schema, request.tag, Slot.ofGroup request.group⟩

/-- What the lines of a block end with, the nearest line first. -/
def scan (query : Query) : List (Text × Nat) → Except Error Stop
  | [] => .ok .top
  | (text, line) :: rest =>
    match writer? query.schema query.tag query.slot text with
    | .error e => .error e
    | .ok (some command) => .ok (.writer command line)
    | .ok none =>
      match Script.label? text with
      | some name => .ok (.label name)
      | none => query.scan rest

/-- The places where a label is named; the label that ended the block of a place leads there. -/
def nodesOf (query : Query) (parent : Nat) (label : Text) : List Node :=
  (query.index.callersOf label).map fun site => ⟨site.file, site.line, some label, some parent⟩

end Query

/-- The labels on the way from a place back to the first one, over at most `bound` places. -/
def pathFrom (nodes : List Node) : Nat → Option Nat → List Text
  | bound + 1, some place =>
    match nodes[place]? with
    | some node =>
      (node.via.filter fun label => !label.isEmpty).toList ++ pathFrom nodes bound node.parent
    | none => []
  | _, _ => []

/-- The labels on the way from a place back to the first one. Each place was found from an earlier
one, so the way has at most as many places as there are. -/
def labelPath (nodes : List Node) (place : Nat) : List Text :=
  pathFrom nodes nodes.length (some place)

namespace Arena

def start (request : Request) : Arena := { nodes := [⟨request.file, request.line, none, none⟩] }

/-- The place that is taken next. -/
def next? (arena : Arena) : Option Node := arena.nodes[arena.steps]?

def take (arena : Arena) : Arena := { arena with steps := arena.steps + 1 }

def miss (arena : Arena) (file : Text) : Arena :=
  if arena.unreadable.contains file then arena
  else { arena with unreadable := arena.unreadable ++ [file] }

def finish (arena : Arena) (outcome : Outcome) : Result :=
  ⟨outcome, arena.steps, Text.sort arena.unreadable⟩

def stop (arena : Arena) : Result :=
  arena.finish (if arena.steps < arena.nodes.length then .budgetExceeded else .unresolved)

/-- The search after the label that ended the block above a place; the label is expanded the first
time. -/
def cross (query : Query) (arena : Arena) (place : Nat) (label : Text) : Arena :=
  if arena.visited.contains label then arena
  else
    { arena with
      visited := arena.visited ++ [label]
      nodes := arena.nodes ++ query.nodesOf place label }

/-- The search after the block above a place, or its result. -/
def visit (query : Query) (arena : Arena) (place : Nat) (node : Node) (lines : List Text) :
    Except Error (Arena ⊕ Result) :=
  match query.scan (linesAbove lines node.line) with
  | .error e => .error e
  | .ok (.writer command line) =>
    .ok (.inr (arena.finish (.resolved ⟨command, node.file, line, labelPath arena.nodes place⟩)))
  | .ok (.label name) => .ok (.inl (arena.cross query place name))
  | .ok .top => .ok (.inl arena)

/-- Runs a search over files that do not change, for as many places as are given. -/
def run (query : Query) (content : Files) :
    Nat → Arena → Except Error Result
  | 0, arena => .ok arena.stop
  | budget + 1, arena =>
    match arena.next? with
    | none => .ok arena.stop
    | some node =>
      match content node.file with
      | .error e => .error (.notAPath e)
      | .ok none => run query content budget (arena.take.miss node.file)
      | .ok (some lines) =>
        match arena.take.visit query arena.steps node lines with
        | .error e => .error e
        | .ok (.inl next) => run query content budget next
        | .ok (.inr result) => .ok result

end Arena

def contentOf (tree : FileTree) : Files := tree.readLines?

def trace (tree : FileTree) (index : Script.Index) (schema : Schema) (limit : Int)
    (request : Request) : Except Error Result :=
  (Arena.start request).run (.ofRequest index schema request) (contentOf tree) limit.toNat

end Dialogue.Trace
