import Dialogue.Command.Definition
import Dialogue.FileTree.Replace
import Dialogue.Json.Parser
import Dialogue.Json.Printer

/-!
# The command schema

The schema keeps the commands of two files. A hint is preferred to a plain definition of the same
name. Hints are saved as they were read.
-/

namespace Dialogue

/-- Commands by their names: those of hints, and those of plain definitions. -/
structure Schema where
  hints : Table Command.Name Command := ∅
  commands : Table Command.Name Command := ∅

namespace Schema

inductive FileError
  | unreadable
  | malformed
  | notAList
deriving DecidableEq, Repr

inductive Error
  | file (path : Text) (error : FileError)
  | overlong (e : OverlongInteger)
  | tooDeep (container : Json.Container)
  | unpaired
  | definition (e : Command.DefinitionError)
  | notAPath (e : Path.NullCharacter)
deriving DecidableEq, Repr

def FileError.words : FileError → Text
  | .unreadable => "unreadable"
  | .malformed => "invalid JSON"
  | .notAList => "expected a list of definitions"

def Error.message : Error → Text
  | .file path error => path ++ ": " ++ error.words
  | .overlong e => e.message
  | .tooDeep container => container.tooDeep
  | .unpaired => Json.unpairedMessage
  | .definition e => e.message
  | .notAPath e => e.message

def byName (commands : List Command) :
    Except Command.DefinitionError (Table Command.Name Command) :=
  commands.foldlM (fun table command =>
    (Command.nameOf command.name).map fun name => table.insert name command) ∅

def ofCommands (hints commands : List Command) : Except Command.DefinitionError Schema := do
  let hints ← byName hints
  let commands ← byName commands
  .ok ⟨hints, commands⟩

def find? (schema : Schema) (name : Command.Name) : Option Command :=
  (schema.hints.get? name).orElse fun _ => schema.commands.get? name

/-- The command of a value. A lookup of a list or an object, which are no names, ends with an
error. -/
def get? (schema : Schema) (name : Json) : Except Command.DefinitionError (Option Command) :=
  (Command.nameOf name).map schema.find?

def contains (schema : Schema) (name : Json) : Except Command.DefinitionError Bool :=
  (Command.nameOf name).map fun name =>
    schema.hints.contains name || schema.commands.contains name

def size (schema : Schema) : Nat :=
  schema.hints.size + (schema.commands.keys.filter fun name => !schema.hints.contains name).length

def objects (items : List Json) : List (List (Text × Json)) :=
  items.filterMap fun
    | .object fields => some fields
    | _ => none

/-- The objects of the list in a file, where `limit` containers may be open at once. -/
def readList (limit : Nat) (tree : FileTree) (path : Text) :
    Except Error (List (List (Text × Json))) :=
  match tree.readLines? path with
  | .error e => .error (.notAPath e)
  | .ok none => .error (.file path .unreadable)
  | .ok (some lines) =>
    match Json.parse limit (Text.unlines lines) with
    | .error .malformed => .error (.file path .malformed)
    | .error (.overlong e) => .error (.overlong e)
    | .error (.tooDeep container) => .error (.tooDeep container)
    | .error .unpaired => .error .unpaired
    | .ok (.array items) => .ok (objects items)
    | .ok _ => .error (.file path .notAList)

def readAll (read? : List (Text × Json) → Except Command.DefinitionError (Option Command))
    (items : List (List (Text × Json))) : Except Command.DefinitionError (List Command) :=
  (items.mapM read?).map fun commands => commands.filterMap id

/-- The commands in a file. A missing file has none, and one that is no list is logged and has
none. -/
def loadFile (limit : Nat) (tree : FileTree)
    (read? : List (Text × Json) → Except Command.DefinitionError (Option Command)) (path : Text) :
    List Log.Entry × Except Error (List Command) :=
  if !tree.contains path then ([], .ok [])
  else
    match readList limit tree path with
    | .error (.file path error) =>
      ([⟨.warning, "Skipping schema file: " ++ (Error.file path error).message⟩], .ok [])
    | .error e => ([], .error e)
    | .ok items => ([], (readAll read? items).mapError .definition)

def hintsFile : Text := "hints.json"

def commandsFile : Text := "commands.json"

def loadedEntry (schema : Schema) : Log.Entry :=
  ⟨.info, "Loaded " ++ Text.ofNat schema.hints.size ++ " hints and "
    ++ Text.ofNat schema.commands.size ++ " commands"⟩

def load (limit : Nat) (tree : FileTree) (folder : Text) : List Log.Entry × Except Error Schema :=
  match loadFile limit tree Command.ofHint? (Path.join folder hintsFile) with
  | (log, .error e) => (log, .error e)
  | (log, .ok hints) =>
    match loadFile limit tree Command.ofDefinition? (Path.join folder commandsFile) with
    | (more, .error e) => (log ++ more, .error e)
    | (more, .ok commands) =>
      match ofCommands hints commands with
      | .error e => (log ++ more, .error (.definition e))
      | .ok schema => (log ++ more ++ [schema.loadedEntry], .ok schema)

/-- The hints as they are written to a file: as they were read, or made anew. -/
def hintList (schema : Schema) : Json :=
  .array (schema.hints.values.map fun hint =>
    .object (if hint.source.isEmpty then hint.toHint else hint.source))

/-- Why the list of hints cannot be written, where `room` containers may be open at once. -/
def saveFault? (room : Nat) (schema : Schema) : Option Text :=
  (schema.hintList.fault? room).map Json.WriteError.message

/-- Replaces the file at a path by the hints. Where the list cannot be written, what is written of
it goes away with the temporary file. -/
def saveHints (room : Nat) (tree : FileTree) (schema : Schema) (path : Text) :
    FileTree.Replacement :=
  let replaced := tree.replace path [schema.hintList.pretty .unicode] (schema.saveFault? room)
  match replaced.result with
  | .error _ => replaced
  | .ok _ =>
    { replaced with log := replaced.log ++ [⟨.info, "Saved " ++ Text.ofNat schema.hints.size
        ++ " hints to " ++ path⟩] }

end Schema

end Dialogue
