import Dialogue.Script.Grammar

/-!
# What a line does with a word

A line defines a label, jumps to it, calls it, or uses the word otherwise. A word is found on a line
only whole: no word character after it, and none in front of it, nor the marks of flags and
variables.
-/

namespace Dialogue.Script

inductive Usage
  | definition
  | jump
  | call
  | other
deriving DecidableEq, Repr

/-- The usages in the order of a report. -/
def Usage.all : List Usage := [.definition, .jump, .call, .other]

def Usage.word : Usage → Text
  | .definition => "definition"
  | .jump => "jump"
  | .call => "call"
  | .other => "other"

def Transfer.usage : Transfer → Usage
  | .jump => .jump
  | .call => .call

/-- What a line does with a word: the first reference to it decides, if the line does not declare
it. -/
def usage (line word : Text) : Usage :=
  if label? line = some word then .definition
  else
    match (references line).find? fun r => r.target == word with
    | some r => r.transfer.usage
    | none => .other

/-- Whether a word can start after the character. -/
def freesStart (before : Option Char) : Bool :=
  !before.any fun c => Text.isWord c || c == '#' || c == '$'

def startsWhole (word text : Text) : Bool :=
  (Text.after? word text).any fun rest => !rest.head?.any Text.isWord

/-- The offset of the first whole occurrence in the rest of a line. -/
def wholeWordFrom? (word : Text) (before : Option Char) (offset : Nat) : Text → Option Nat
  | [] => if freesStart before && startsWhole word [] then some offset else none
  | c :: rest =>
    if freesStart before && startsWhole word (c :: rest) then some offset
    else wholeWordFrom? word (some c) (offset + 1) rest

/-- The offset of the first whole occurrence of a word on a line. -/
def wholeWord? (word line : Text) : Option Nat := wholeWordFrom? word none 0 line

/-- Whether a line mentions a word: its first whole occurrence is not behind two slashes. -/
def mentions (word line : Text) : Bool :=
  match wholeWord? word line with
  | none => false
  | some offset => !(Text.find? commentMarker line).any fun comment => decide (comment < offset)

end Dialogue.Script
