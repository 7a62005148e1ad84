import Dialogue.FileTree.Folders
import Dialogue.FileTree.Replace
import Dialogue.Json.Parser
import Dialogue.Json.Printer

/-!
# The settings file

Settings are the fields of one JSON object in a file. A missing file has none; one that cannot be
read is logged and has none, and only one that nests too deep, or has half of a surrogate pair in a
string, is an error. The file is UTF-8 and nothing else.
-/

namespace Dialogue.Settings

abbrev Fields := List (Text × Json)

/-- The path of the settings file: the name read from a folder, by default the working folder. -/
def filePath (tree : FileTree) (name : Text) (folder : Option Text) : Text :=
  if Path.isAbsolute name then name
  else Path.join (folder.getD tree.homePath) name

/-- The text of a settings file, if it can be read. -/
def readText? (tree : FileTree) (path : Text) : Option Text :=
  (tree.readBytes path).toOption.bind Utf8.decode?

/-- What ends a load. -/
inductive LoadError
  | tooDeep (container : Json.Container)
  | unpaired
deriving DecidableEq, Repr

def LoadError.message : LoadError → Text
  | .tooDeep container => container.tooDeep
  | .unpaired => Json.unpairedMessage

/-- The fields in the text of a settings file, where `limit` containers may be open at once. -/
def ofText (limit : Nat) (path text : Text) : List Log.Entry × Except LoadError Fields :=
  match Json.parse limit text with
  | .ok (.object fields) => ([], .ok fields)
  | .ok _ => ([⟨.warning, "Ignoring settings file without a JSON object: " ++ path⟩], .ok [])
  | .error (.tooDeep container) => ([], .error (.tooDeep container))
  | .error .unpaired => ([], .error .unpaired)
  | .error .malformed => ([⟨.warning, "Failed to load settings"⟩], .ok [])
  | .error (.overlong _) => ([⟨.warning, "Failed to load settings"⟩], .ok [])

def load (limit : Nat) (tree : FileTree) (path : Text) :
    List Log.Entry × Except LoadError Fields :=
  if !tree.contains path then ([], .ok [])
  else
    match readText? tree path with
    | some text => ofText limit path text
    | none => ([⟨.warning, "Failed to load settings"⟩], .ok [])

/-- What is left of a save. -/
structure Saved where
  tree : FileTree
  log : List Log.Entry
  result : Except FileTree.ReplaceError Unit

/-- A save that ends with a failure. What the system refuses is logged and is no failure of the
save. -/
def Saved.ofError (tree : FileTree) (log : List Log.Entry) : FileTree.ReplaceError → Saved
  | .fault (.refused _) => ⟨tree, log ++ [⟨.warning, "Failed to save settings"⟩], .ok ()⟩
  | e => ⟨tree, log, .error e⟩

/-- Replaces the file at a path by the settings. Folders above it are made. Fields that cannot be
written are a failure. -/
def save (room : Nat) (tree : FileTree) (path : Text) (fields : Fields) : Saved :=
  let folder := Path.parent path
  match tree.makeFolders (if folder.isEmpty then ['.'] else folder) with
  | (tree, .error fault) => .ofError tree [] (.fault fault)
  | (tree, .ok _) =>
    let settings := Json.object fields
    let replaced := tree.replace path [settings.pretty .ascii]
      ((settings.fault? room).map Json.WriteError.message)
    match replaced.result with
    | .ok _ => ⟨replaced.tree, replaced.log, .ok ()⟩
    | .error e => .ofError replaced.tree replaced.log e

end Dialogue.Settings
