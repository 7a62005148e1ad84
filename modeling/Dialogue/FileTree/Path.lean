import Dialogue.Text.Basic

/-!
# Paths as text

A path is read by its slashes alone; nothing here looks at a file.
-/

namespace Dialogue.Path

/-- Why a text is no path: it holds a null character. -/
structure NullCharacter where
deriving DecidableEq, Repr

def NullCharacter.message (_ : NullCharacter) : Text := "embedded null byte"

def holdsNull (path : Text) : Bool := path.contains '\x00'

def isAbsolute (path : Text) : Bool := path.head? == some '/'

/-- The part after the last slash. -/
def base (path : Text) : Text := (path.reverse.takeWhile (· != '/')).reverse

/-- The part up to the last slash, that slash included. -/
def head (path : Text) : Text := (path.reverse.dropWhile (· != '/')).reverse

/-- The path without the slashes at its end, unless it has nothing else. -/
def trimSlashes (path : Text) : Text :=
  if path.all (· == '/') then path else (path.reverse.dropWhile (· == '/')).reverse

/-- The part in front of the last slash, without further slashes at its end unless it has
nothing else. -/
def parent (path : Text) : Text := trimSlashes (head path)

/-- The part after the last slash in two: up to the last dot, and from it. A dot that only dots
precede starts no extension. -/
def splitExtension (path : Text) : Text × Text :=
  let name := base path
  let after := (name.reverse.takeWhile (· != '.')).reverse
  let before := name.take (name.length - after.length - 1)
  if name.contains '.' && !before.all (· == '.') then (before, '.' :: after) else (name, [])

/-- The last name without its extension. -/
def stem (path : Text) : Text := (splitExtension path).1

/-- The extension of the last name, its dot included. -/
def extension (path : Text) : Text := (splitExtension path).2

/-- The second path read from the first one. -/
def join (first second : Text) : Text :=
  if isAbsolute second then second
  else if first.isEmpty || first.getLast? == some '/' then first ++ second
  else first ++ '/' :: second

/-- One more name on a normal path: `.` and nothing add none, and `..` takes the last one away
where there is one to take. -/
def pushName (absolute : Bool) (names : List Text) (name : Text) : List Text :=
  if name.isEmpty || name == ['.'] then names
  else if name == ['.', '.'] then
    match names.getLast? with
    | none => if absolute then [] else [name]
    | some last => if last == ['.', '.'] then names ++ [name] else names.dropLast
  else names ++ [name]

/-- The slashes that a path keeps at its start: two if it has exactly two, else one or none. -/
def leadingSlashes : Text → Text
  | '/' :: '/' :: '/' :: _ => ['/']
  | '/' :: '/' :: _ => ['/', '/']
  | '/' :: _ => ['/']
  | _ => []

/-- The path without `.`, without doubled slashes, and with each `..` taken against the name
before it. -/
def normalize (path : Text) : Text :=
  let names := (Text.splitAt '/' path).foldl (pushName (isAbsolute path)) []
  let normal := leadingSlashes path ++ Text.join ['/'] names
  if normal.isEmpty then ['.'] else normal

/-- The normal path from the root, read from the given folder. -/
def absolute (folder path : Text) : Text := normalize (join folder path)

end Dialogue.Path
