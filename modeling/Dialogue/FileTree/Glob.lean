import Dialogue.FileTree.Basic
import Dialogue.FileTree.Pattern

/-!
# Finding files by a path pattern

Each name of the path is a pattern of its own. The name `**` stands for any number of folders, and
at the end also for a file below them. Names that start with a dot are found only by patterns that
start with one. A path that several choices of `**` lead to is found several times. A search is open
in one folder inside of the other, and ends with an error where there are too many of them.
-/

namespace Dialogue.FileTree

/-- The pattern for any number of folders. -/
def anyFolders : Text := "**"

def isHidden (name : Text) : Bool := name.head? == some '.'

/-- The place of the folder at a path, the empty path being that of the working folder. -/
def folderPlace? (tree : FileTree) (path : Text) : Option Place :=
  if path.isEmpty then some tree.home
  else
    match tree.locate path with
    | .error _ => none
    | .ok place => if tree.entryAt? place = some .folder then some place else none

def matching (tree : FileTree) (foldersOnly : Bool) (folder pattern : Text) : List Text :=
  match tree.folderPlace? folder with
  | none => []
  | some place =>
    (tree.names place).filter fun name =>
      (!foldersOnly || tree.entryAt? (place ++ [name]) == some .folder)
        && (isHidden pattern || !isHidden name)
        && Pattern.accepts (Pattern.elements pattern) name

/-- The names that lead from a folder to what stands below it. None of them is hidden, and the path
of the folder that holds the last one is not too long for the system. -/
def namesBelow (tree : FileTree) (foldersOnly : Bool) (folder : Text) : List Place :=
  match tree.folderPlace? folder with
  | none => []
  | some place =>
    tree.entries.entries.filterMap fun (found, entry) =>
      let names := found.drop place.length
      if place.isPrefixOf found && !names.isEmpty && !names.any isHidden
          && (!foldersOnly || entry == .folder)
          && !isLongerThan maxPath (Path.join folder (Text.join ['/'] names.dropLast)) then
        some names
      else none

/-- The paths below a folder whose names are not hidden. -/
def below (tree : FileTree) (foldersOnly : Bool) (folder : Text) : List Text :=
  (tree.namesBelow foldersOnly folder).map (Text.join ['/'])

/-- The name itself if it stands in the folder; the empty name stands for the folder. -/
def literally (tree : FileTree) (folder name : Text) : List Text :=
  if name.isEmpty then if tree.isFolder folder then [[]] else []
  else if tree.contains (Path.join folder name) then [name] else []

/-- The paths from a folder that the last name of a pattern stands for. No folder at all is the
empty path, which is given without a look at what stands there. -/
def inFolder (tree : FileTree) (foldersOnly : Bool) (folder name : Text) : List Text :=
  if name == anyFolders then [] :: tree.below foldersOnly folder
  else if Pattern.hasMagic name then tree.matching foldersOnly folder name
  else tree.literally folder name

/-- The paths that a pattern stands for, its folders expanded up to a depth. -/
def expandTo (tree : FileTree) : Nat → Bool → Text → List Text
  | 0, _, _ => []
  | depth + 1, foldersOnly, pattern =>
    let folder := Path.parent pattern
    let name := Path.base pattern
    if !Pattern.hasMagic pattern then
      if name.isEmpty then if tree.isFolder folder then [pattern] else []
      else if tree.contains pattern then [pattern] else []
    else if folder.isEmpty then tree.inFolder foldersOnly [] name
    else
      let folders := if Pattern.hasMagic folder then expandTo tree depth true folder else [folder]
      folders.flatMap fun f => (tree.inFolder foldersOnly f name).map (Path.join f)

/-- The paths that a pattern stands for. The working folder itself is not one of them. -/
def expand (tree : FileTree) (pattern : Text) : List Text :=
  let found := tree.expandTo (pattern.length + 1) false pattern
  if anyFolders.isPrefixOf pattern && found.head? == some [] then found.tail else found

/-- How many folders a search in a folder is open in at once. -/
def scanDepth (tree : FileTree) (foldersOnly : Bool) (folder name : Text) : Nat :=
  if name == anyFolders then
    ((tree.namesBelow foldersOnly folder).map List.length).foldl max 0 + 1
  else 1

/-- How many folders the search for a pattern is open in at once, its folders expanded up to a
depth. -/
def depthTo (tree : FileTree) : Nat → Bool → Text → Nat
  | 0, _, _ => 0
  | depth + 1, foldersOnly, pattern =>
    let folder := Path.parent pattern
    let name := Path.base pattern
    if !Pattern.hasMagic pattern then 0
    else if folder.isEmpty then tree.scanDepth foldersOnly [] name
    else if Pattern.hasMagic folder then
      ((tree.expandTo depth true folder).map fun f => tree.scanDepth foldersOnly f name).foldl max
        (depthTo tree depth true folder) + 1
    else tree.scanDepth foldersOnly folder name + 1

/-- How many folders the search for a pattern is open in at once. -/
def searchDepth (tree : FileTree) (pattern : Text) : Nat :=
  tree.depthTo (pattern.length + 1) false pattern

/-- Whether the folder in front of the first name that is a pattern is no path. Nothing stands at a
later name that is none. -/
def looksInNull (pattern : Text) : Bool :=
  Pattern.hasMagic pattern
    && Path.holdsNull (Path.head (pattern.takeWhile fun c => !Pattern.hasMagic [c]))

/-- What ends a search. -/
inductive SearchError
  | tooDeep
  | notAPath (e : Path.NullCharacter)
deriving DecidableEq, Repr

def SearchError.message : SearchError → Text
  | .tooDeep => "maximum recursion depth exceeded"
  | .notAPath e => e.message

/-- The paths below a root that a pattern stands for, in the order of code points, where `room`
folders may be open at once. Characters with a meaning in patterns have it in the root too. -/
def glob (room : Nat) (tree : FileTree) (root pattern : Text) : Except SearchError (List Text) :=
  let whole := Path.join root pattern
  if room < tree.searchDepth whole then .error .tooDeep
  else if looksInNull whole then .error (.notAPath {})
  else .ok (Text.sort (tree.expand whole))

end Dialogue.FileTree
