import Dialogue.FileTree.Basic
import Dialogue.Log
import Dialogue.Script.Usage

/-!
# Where a word is used

A report lists every line that mentions a word, file by file, with what the line does with it.
-/

namespace Dialogue.Script

structure Mention where
  file : Text
  line : Nat
  text : Text
  usage : Usage
deriving DecidableEq, Repr

/-- The mentions in lines of a file, numbered from `line` on. -/
def mentionsFrom (word file : Text) (line : Nat) : List Text → List Mention
  | [] => []
  | text :: rest =>
    let tail := mentionsFrom word file (line + 1) rest
    if mentions word text then ⟨file, line, Text.trim text, usage text word⟩ :: tail else tail

/-- The lines of the files that mention a word, and what is logged: each file that cannot be
read. -/
def report (tree : FileTree) (word : Text) :
    List Text → List Log.Entry × Except Path.NullCharacter (List Mention)
  | [] => ([], .ok [])
  | path :: rest =>
    match tree.readLines path with
    | .error (.notAPath e) => ([], .error e)
    | .error (.refused cause) =>
      let (log, found) := report tree word rest
      (⟨.warning, "Could not read file: " ++ path ++ " (" ++ cause.about path ++ ")"⟩ :: log, found)
    | .ok lines =>
      let (log, found) := report tree word rest
      (log, found.map (mentionsFrom word path 0 lines ++ ·))

def ofUsage (usage : Usage) (found : List Mention) : List Mention :=
  found.filter fun m => m.usage == usage

/-- The mentions of one usage by their files. -/
def byFile (usage : Usage) (found : List Mention) : Table Text (List Mention) :=
  (ofUsage usage found).foldl (fun table m => table.push m.file m) ∅

end Dialogue.Script
