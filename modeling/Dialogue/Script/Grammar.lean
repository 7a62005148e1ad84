import Dialogue.Script.Invocation
import Dialogue.Text.Lower
import Dialogue.Text.Word

/-!
# Labels and the lines that name them

A label is declared as `Label @name` or as `name:` alone on its line. It is named by `Jump @name`
and `Call @name`, and by any command whose name ends in JUMP or CALL, as the first of its arguments
that is a quoted word. Comments are not read.
-/

namespace Dialogue.Script

/-- The name after `Label @`. -/
def labelAfterMarker? (code : Text) : Option Text := do
  let rest ← Text.after? "Label" (Text.trimStart code)
  let rest ← if rest.head?.any Text.isBlank then Text.after? ['@'] (Text.trimStart rest) else none
  let (name, _) ← Text.takeWord? rest
  some name

/-- The name in front of a colon that only blanks follow. -/
def labelBeforeColon? (code : Text) : Option Text := do
  let (name, rest) ← Text.takeWord? (Text.trimStart code)
  let rest ← Text.after? [':'] rest
  if rest.all Text.isBlank then some name else none

/-- The name of the label that a line declares. -/
def label? (line : Text) : Option Text :=
  (labelAfterMarker? (code line)).orElse fun _ => labelBeforeColon? (code line)

/-- How a line leaves for a label. -/
inductive Transfer
  | jump
  | call
deriving DecidableEq, Repr

/-- The transfer that a word writes, in upper or lower case. -/
def Transfer.ofWord? (word : Text) : Option Transfer :=
  let word := Text.lower word
  if word == "jump" then some .jump else if word == "call" then some .call else none

structure Word where
  start : Nat
  text : Text
  after : Text
deriving DecidableEq, Repr

/-- One more word character in front of the words of a rest. -/
def consWord (offset : Nat) (c : Char) (rest : Text) (words : List Word) : List Word :=
  match words with
  | [] => [⟨offset, [c], rest⟩]
  | word :: more =>
    if word.start = offset + 1 then ⟨offset, c :: word.text, word.after⟩ :: more
    else ⟨offset, [c], rest⟩ :: word :: more

def wordsFrom (offset : Nat) : Text → List Word
  | [] => []
  | c :: rest =>
    if Text.isWord c then consWord offset c rest (wordsFrom (offset + 1) rest)
    else wordsFrom (offset + 1) rest

/-- The words of a text from left to right. -/
def words (text : Text) : List Word := wordsFrom 0 text

/-- A label named on a line. -/
structure Reference where
  /-- The offset of the word that makes the reference. -/
  start : Nat
  transfer : Transfer
  target : Text
deriving DecidableEq, Repr

/-- The reference of a word `Jump` or `Call` before an `@` and a name. -/
def Word.markedReference? (word : Word) : Option Reference := do
  let transfer ← Transfer.ofWord? word.text
  let rest ← if word.after.head?.any Text.isBlank then Text.after? ['@'] (Text.trimStart word.after)
    else none
  let (target, _) ← Text.takeWord? rest
  some ⟨word.start, transfer, target⟩

/-- The references by `@`. The name of one reference is not the first word of the next. -/
def markedReferences : List Word → List Reference
  | [] => []
  | [_] => []
  | word :: next :: rest =>
    match word.markedReference? with
    | some reference => reference :: markedReferences rest
    | none => markedReferences (next :: rest)

/-- The word between single quotes, if the argument is one. -/
def quotedWord? (argument : Text) : Option Text := do
  let rest ← Text.after? [quote] argument
  let (word, rest) ← Text.takeWord? rest
  if rest == [quote] then some word else none

/-- The transfer of a command: that of the last four letters of its name. -/
def Transfer.ofCommand? (name : Text) : Option Transfer :=
  Transfer.ofWord? (name.drop (name.length - 4))

/-- The reference of a command outside literals by its first argument that is a quoted word. -/
def Word.commandReference? (code : Text) (word : Word) : Option Reference := do
  let transfer ← Transfer.ofCommand? word.text
  let list ← Text.after? ['('] (Text.trimStart word.after)
  if opensLiteral (code.take word.start) then none
  else
    let target ← (arguments list).findSome? quotedWord?
    some ⟨word.start, transfer, target⟩

/-- The labels that a line names, from left to right. -/
def references (line : Text) : List Reference :=
  let words := words (code line)
  (markedReferences words ++ words.filterMap (Word.commandReference? (code line))).mergeSort
    fun a b => decide (a.start ≤ b.start)

end Dialogue.Script
