import Dialogue.FileTree.Glob
import Dialogue.Log
import Dialogue.Script.Grammar

/-!
# The index of the scripts

The index knows where each label is declared and which lines name it. A label that is declared
again is known by its last declaration, and all of its declarations are kept as duplicates.
-/

namespace Dialogue.Script

/-- Where a label is declared; the first line of a file is line 0. -/
structure Definition where
  name : Text
  file : Text
  line : Nat
deriving DecidableEq, Repr

/-- A line that names a label. -/
structure CallSite where
  file : Text
  line : Nat
  target : Text
deriving DecidableEq, Repr

/-- Labels, the lines that name them, and the files that were read. -/
structure Index where
  definitions : Table Text Definition := ∅
  callers : Table Text (List CallSite) := ∅
  files : List Text := []
  duplicates : Table Text (List Definition) := ∅
  failed : List Text := []

namespace Index

/-- A place as it is shown, its line counted from 1. -/
def shownPlace (definition : Definition) : Text :=
  definition.file ++ ":" ++ Text.ofNat (definition.line + 1)

def redefined (previous definition : Definition) : Log.Entry :=
  ⟨.warning, "Label '" ++ definition.name ++ "' redefined at " ++ shownPlace definition
    ++ " (previous " ++ shownPlace previous ++ ")"⟩

def define (index : Index) (definition : Definition) : Index × List Log.Entry :=
  let defined := { index with definitions := index.definitions.insert definition.name definition }
  match index.definitions.get? definition.name with
  | none => (defined, [])
  | some previous =>
    let earlier := (index.duplicates.get? definition.name).getD [previous]
    ({ defined with
        duplicates := index.duplicates.insert definition.name (earlier ++ [definition]) },
      [redefined previous definition])

def addCaller (index : Index) (site : CallSite) : Index :=
  { index with callers := index.callers.push site.target site }

def addLine (index : Index) (file : Text) (line : Nat) (text : Text) : Index × List Log.Entry :=
  let (index, log) :=
    match label? text with
    | some name => index.define ⟨name, file, line⟩
    | none => (index, [])
  ((references text).foldl (fun index r => index.addCaller ⟨file, line, r.target⟩) index, log)

/-- The index with more lines of a file, numbered from `line` on. -/
def addLinesFrom (index : Index) (file : Text) (line : Nat) :
    List Text → Index × List Log.Entry
  | [] => (index, [])
  | text :: rest =>
    let (index, log) := index.addLine file line text
    let (index, more) := addLinesFrom index file (line + 1) rest
    (index, log ++ more)

def addLines (index : Index) (file : Text) (lines : List Text) : Index × List Log.Entry :=
  { index with files := index.files ++ [file] }.addLinesFrom file 0 lines

/-- The index with the file at a path, which is skipped if it cannot be read. -/
def addFile (tree : FileTree) (index : Index) (path : Text) :
    Except Path.NullCharacter (Index × List Log.Entry) :=
  match tree.readLines? path with
  | .error e => .error e
  | .ok (some lines) => .ok (index.addLines path lines)
  | .ok none =>
    .ok ({ index with failed := index.failed ++ [path] },
      [⟨.warning, "Skipping script: " ++ path ++ ": unreadable"⟩])

/-- The index with more files, and what was logged also where one of them ends the scan. -/
def addFiles (tree : FileTree) (index : Index) :
    List Text → List Log.Entry × Except Path.NullCharacter Index
  | [] => ([], .ok index)
  | path :: rest =>
    match addFile tree index path with
    | .error e => ([], .error e)
    | .ok (index, log) =>
      let (more, result) := addFiles tree index rest
      (log ++ more, result)

def size (index : Index) : Nat := index.definitions.size

def ofFiles (tree : FileTree) (paths : List Text) :
    List Log.Entry × Except Path.NullCharacter Index :=
  match addFiles tree {} paths with
  | (log, .error e) => (log, .error e)
  | (log, .ok index) =>
    (log ++ [⟨.info, "Indexed " ++ Text.ofNat index.size ++ " labels across "
      ++ Text.ofNat index.files.length ++ " scripts"⟩], .ok index)

def definition? (index : Index) (label : Text) : Option Definition := index.definitions.get? label

def callersOf (index : Index) (label : Text) : List CallSite :=
  (index.callers.get? label).getD []

/-- The declared labels in the order of code points. -/
def labels (index : Index) : List Text := Text.sort index.definitions.keys

def contains (index : Index) (label : Text) : Bool := index.definitions.contains label

end Index

def defaultPattern : Text := "**/*.ev"

def find (room : Nat) (tree : FileTree) (root pattern : Text) :
    List Log.Entry × Except FileTree.SearchError (List Text) :=
  if tree.isFolder root then ([], tree.glob room root pattern)
  else ([⟨.warning, "Script folder not found: " ++ root⟩], .ok [])

end Dialogue.Script
