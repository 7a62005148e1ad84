import Dialogue.Encoding.Fallback
import Dialogue.FileTree.Path
import Dialogue.Table
import Dialogue.Text.Lines
import Dialogue.Text.Quoted
import Dialogue.Text.Integer

/-!
# A tree of files

Folders and files stand at places, which are the names on the way from the root. A path is walked
name by name, from the root or from the working folder, and each name but the last one must be that
of a folder. The system refuses a path for one of a few causes; a text that is no path does not get
as far as that.
-/

namespace Dialogue

inductive Cause
  | notFound
  | busy
  | alreadyThere
  | notFolder
  | isFolder
  | nameTooLong
deriving DecidableEq, Repr

/-- The number by which the system knows the cause. -/
def Cause.number : Cause → Nat
  | .notFound => 2
  | .busy => 16
  | .alreadyThere => 17
  | .notFolder => 20
  | .isFolder => 21
  | .nameTooLong => 36

/-- The system's words for the cause. -/
def Cause.words : Cause → Text
  | .notFound => "No such file or directory"
  | .busy => "Device or resource busy"
  | .alreadyThere => "File exists"
  | .notFolder => "Not a directory"
  | .isFolder => "Is a directory"
  | .nameTooLong => "File name too long"

/-- A refusal with the path that it is about. -/
def Cause.about (cause : Cause) (path : Text) : Text :=
  "[Errno " ++ Text.ofNat cause.number ++ "] " ++ cause.words ++ ": " ++ Text.quoted path

/-- A refusal to move one path to another. -/
def Cause.aboutMove (cause : Cause) (source target : Text) : Text :=
  cause.about source ++ " -> " ++ Text.quoted target

/-- A place in the tree: the names on the way to it from the root. -/
abbrev Place := List Text

inductive Entry
  | folder
  | file (content : Bytes)
deriving DecidableEq, Repr

/-- Files and folders, and the folder in which relative paths start. -/
structure FileTree where
  home : Place
  entries : Table Place Entry

namespace FileTree

/-- Why nothing is done at a path: the system refuses, or the text is no path. -/
inductive Fault
  | refused (cause : Cause)
  | notAPath (e : Path.NullCharacter)
deriving DecidableEq, Repr

def Fault.about (path : Text) : Fault → Text
  | .refused cause => cause.about path
  | .notAPath e => e.message

def Fault.aboutMove (source target : Text) : Fault → Text
  | .refused cause => cause.aboutMove source target
  | .notAPath e => e.message

/-- The tree with a working folder and the folders above it. -/
def ofHome (home : Place) : FileTree :=
  ⟨home, .ofList ((List.range home.length).map fun n => (home.take (n + 1), .folder))⟩

def homePath (tree : FileTree) : Text := '/' :: Text.join ['/'] tree.home

/-- What stands at a place; the root is always a folder. -/
def entryAt? (tree : FileTree) (place : Place) : Option Entry :=
  if place.isEmpty then some .folder else tree.entries.get? place

def put (tree : FileTree) (place : Place) (entry : Entry) : FileTree :=
  { tree with entries := tree.entries.insert place entry }

def erase (tree : FileTree) (place : Place) : FileTree :=
  { tree with entries := ⟨tree.entries.entries.filter fun e => e.1 != place⟩ }

/-- The place that one more name leads to. -/
def enter (place : Place) (name : Text) : Place :=
  if name.isEmpty || name == ['.'] then place
  else if name == ['.', '.'] then place.dropLast
  else place ++ [name]

def maxName : Nat := 255

def maxPath : Nat := 4095

def isLongerThan (limit : Nat) (text : Text) : Bool := decide (limit < (Utf8.encode text).length)

/-- The place that names lead to; each step starts from a folder. -/
def walk (tree : FileTree) (place : Place) : List Text → Except Cause Place
  | [] => .ok place
  | name :: rest =>
    match tree.entryAt? place with
    | none => .error .notFound
    | some (.file _) => .error .notFolder
    | some .folder =>
      if isLongerThan maxName name then .error .nameTooLong
      else walk tree (enter place name) rest

/-- The place of a path. Something stands there or could stand there. -/
def locate (tree : FileTree) (path : Text) : Except Fault Place :=
  if Path.holdsNull path then .error (.notAPath {})
  else if path.isEmpty then .error (.refused .notFound)
  else if isLongerThan maxPath path then .error (.refused .nameTooLong)
  else
    (tree.walk (if Path.isAbsolute path then [] else tree.home) (Text.splitAt '/' path)).mapError
      .refused

/-- The place of a path where something is to be made: slashes at its end may follow a name at which
nothing stands. -/
def locateNew (tree : FileTree) (path : Text) : Except Fault Place :=
  if Path.holdsNull path then .error (.notAPath {})
  else if isLongerThan maxPath path then .error (.refused .nameTooLong)
  else tree.locate (Path.trimSlashes path)

def status (tree : FileTree) (path : Text) : Except Fault Entry :=
  match tree.locate path with
  | .error fault => .error fault
  | .ok place =>
    match tree.entryAt? place with
    | none => .error (.refused .notFound)
    | some entry => .ok entry

def contains (tree : FileTree) (path : Text) : Bool := (tree.status path).isOk

def isFolder (tree : FileTree) (path : Text) : Bool :=
  match tree.status path with
  | .ok .folder => true
  | _ => false

def readBytes (tree : FileTree) (path : Text) : Except Fault Bytes :=
  match tree.status path with
  | .error fault => .error fault
  | .ok .folder => .error (.refused .isFolder)
  | .ok (.file content) => .ok content

def readText (tree : FileTree) (path : Text) : Except Fault Text :=
  (tree.readBytes path).map Encoding.read

def readLines (tree : FileTree) (path : Text) : Except Fault (List Text) :=
  (tree.readText path).map Text.lines

/-- The lines of a file, or none where the system refuses. Only a text that is no path is a
failure. -/
def readLines? (tree : FileTree) (path : Text) : Except Path.NullCharacter (Option (List Text)) :=
  match tree.readLines path with
  | .ok lines => .ok (some lines)
  | .error (.refused _) => .ok none
  | .error (.notAPath e) => .error e

def endsInSlash (path : Text) : Bool := path.getLast? == some '/'

/-- The tree with a new file at a path, or with new content for the file there. A path that ends
with a slash is that of a folder. -/
def write (tree : FileTree) (path : Text) (content : Bytes) : Except Fault FileTree :=
  match tree.locateNew path with
  | .error fault => .error fault
  | .ok place =>
    if endsInSlash path || tree.entryAt? place = some .folder then .error (.refused .isFolder)
    else .ok (tree.put place (.file content))

def remove (tree : FileTree) (path : Text) : Except Fault FileTree :=
  match tree.locate path with
  | .error fault => .error fault
  | .ok place =>
    match tree.entryAt? place with
    | none => .error (.refused .notFound)
    | some .folder => .error (.refused .isFolder)
    | some (.file _) => .ok (tree.erase place)

/-- The tree with the file at `source` moved to `target`, over a file that stands there. The last
name of the target must be one of its own, and not that of a folder. -/
def move (tree : FileTree) (source target : Text) : Except Fault FileTree := do
  let origin ← tree.locate source
  let goal ← tree.locate target
  let name := Path.base (Path.trimSlashes target)
  if name.isEmpty || name == ['.'] || name == ['.', '.'] then .error (.refused .busy)
  else
    match tree.entryAt? origin, tree.entryAt? goal with
    | none, _ => .error (.refused .notFound)
    | some .folder, _ => .error (.refused .isFolder)
    | some (.file content), entry =>
      if endsInSlash target then .error (.refused .notFolder)
      else if entry = some .folder then .error (.refused .isFolder)
      else .ok ((tree.erase origin).put goal (.file content))

def makeFolder (tree : FileTree) (path : Text) : Except Fault FileTree :=
  match tree.locateNew path with
  | .error fault => .error fault
  | .ok place =>
    match tree.entryAt? place with
    | some _ => .error (.refused .alreadyThere)
    | none => .ok (tree.put place .folder)

/-- The names of what stands directly in a folder. -/
def names (tree : FileTree) (folder : Place) : List Text :=
  tree.entries.keys.filterMap fun place =>
    match place.getLast? with
    | some name => if place.dropLast = folder then some name else none
    | none => none

/-- The files below a place, with their paths from there and their content, in the order of the
paths. -/
def filesBelow (tree : FileTree) (root : Place) : List (Text × Bytes) :=
  let found := tree.entries.entries.filterMap fun (place, entry) =>
    match entry with
    | .folder => none
    | .file content =>
      if root.isPrefixOf place then some (Text.join ['/'] (place.drop root.length), content)
      else none
  found.mergeSort fun a b => Text.le a.1 b.1

end FileTree

end Dialogue
