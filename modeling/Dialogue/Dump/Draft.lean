import Dialogue.Dump.Line
import Dialogue.Message.Token
import Dialogue.Table
import Dialogue.Text.Lower

/-!
# The label that is being read

While a dump is read, the words and tags of one label are gathered here beside the messages that
are finished. A word adds its literal, then its placeholder, then the flow mark of its event.
-/

namespace Dialogue

/-- The flow mark after a word. Events 1, 3 and 4 have marks of their own; 0, 2 and those from 5
on have none; any other event, or a literal without an event, gets a soft break. -/
def Flow.ofEvent? (event : Option Int) (hasLiteral : Bool) : Option Flow :=
  match event with
  | none => if hasLiteral then some .softBreak else none
  | some 1 => some .softBreak
  | some 3 => some .pageReset
  | some 4 => some .pageRepeat
  | some event => if event = 0 ∨ event = 2 ∨ 5 ≤ event then none else some .softBreak

namespace Dump

structure Tag where
  id : Nat
  group : Int
deriving DecidableEq, Repr

def Tag.token (tag : Tag) : Text :=
  '\x7b' :: (Text.ofNat tag.id ++ ':' :: Text.ofInt tag.group ++ ['\x7d'])

/-- A word as far as its fields are read. -/
structure Word where
  literal : Option Text := none
  event : Option Int := none
  tagIndex : Option Nat := none
deriving DecidableEq, Repr

/-- The messages of a dump by their labels in lower case. -/
abbrev Messages := Table Text Message

/-- A label that is being read, and the messages before it. -/
structure Draft where
  messages : Messages := ∅
  label : Text := []
  parts : List Text := []
  tags : List Tag := []
  word : Word := {}
  pendingTag : Option Nat := none
  pendingGroup : Int := defaultGroup

namespace Draft

/-- What a word's tag index adds: the tag at that place of the list, or the index itself in the
default group if the list is shorter. -/
def placeholderText (tags : List Tag) (index : Nat) : Text :=
  match tags[index]? with
  | some tag => tag.token
  | none => Tag.token ⟨index, defaultGroup⟩

/-- The parts that a word adds to the text of its label. -/
def wordParts (tags : List Tag) (word : Word) : List Text :=
  word.literal.toList ++ (word.tagIndex.map (placeholderText tags)).toList
    ++ ((Flow.ofEvent? word.event word.literal.isSome).map Flow.token).toList

/-- Adds the word to the label and starts the next one. -/
def commitWord (draft : Draft) : Draft :=
  { draft with parts := draft.parts ++ wordParts draft.tags draft.word, word := {} }

/-- Adds the tag item to the list, if it has a number, and starts the next one. -/
def flushTag (draft : Draft) : Draft :=
  { draft with
    tags := draft.tags ++ (draft.pendingTag.map fun id => ⟨id, draft.pendingGroup⟩).toList
    pendingTag := none
    pendingGroup := defaultGroup }

/-- Stores the label's message, unless its name or its text is empty. A label that was stored
before keeps its place and gets the new message. -/
def flushLabel (draft : Draft) : Except OverlongInteger Draft :=
  let text := draft.parts.flatten
  if draft.label.isEmpty || text.isEmpty then .ok draft
  else (Message.ofText text).map fun message =>
    { draft with messages := draft.messages.insert (Text.lower draft.label) message }

def startLabel (draft : Draft) (name : Text) : Draft :=
  { messages := draft.messages, label := name }

/-- Commits what is open at the end of the dump. The word is committed also where the label
cannot be stored. -/
def finish (draft : Draft) : Draft × Except OverlongInteger Unit :=
  let draft := draft.commitWord
  match draft.flushLabel with
  | .error e => (draft, .error e)
  | .ok draft => (draft, .ok ())

end Draft

end Dump

end Dialogue
