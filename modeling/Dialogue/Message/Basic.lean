import Dialogue.Text.Integer

/-!
# Messages

A message is literal text with flow marks and placeholders in it. The marks are `{n}`, `{r}` and
`{f}`; a placeholder is written `{tag:group}`, and its group tells names from numbers.
-/

namespace Dialogue

/-- A mark in a message that steers how it is shown. -/
inductive Flow
  | softBreak
  | pageReset
  | pageRepeat
deriving DecidableEq, Repr

namespace Flow

/-- The letter between the braces. -/
def letter : Flow → Char
  | .softBreak => 'n'
  | .pageReset => 'r'
  | .pageRepeat => 'f'

def ofLetter? : Char → Option Flow
  | 'n' => some .softBreak
  | 'r' => some .pageReset
  | 'f' => some .pageRepeat
  | _ => none

def token (flow : Flow) : Text := ['\x7b', flow.letter, '\x7d']

end Flow

/-- The group of a placeholder that is written without one. -/
def defaultGroup : Nat := 1

/-- A place in a message that a command fills when the game runs. -/
structure Placeholder where
  tag : Nat
  group : Nat := defaultGroup
deriving DecidableEq, Repr

/-- The placeholder as it is written, its group included. -/
def Placeholder.token (p : Placeholder) : Text :=
  '\x7b' :: (Text.ofNat p.tag ++ ':' :: Text.ofNat p.group ++ ['\x7d'])

/-- A piece of a message. -/
inductive Segment
  | text (literal : Text)
  | flow (mark : Flow)
  | placeholder (p : Placeholder)
deriving DecidableEq, Repr

namespace Segment

def raw : Segment → Text
  | .text literal => literal
  | .flow mark => mark.token
  | .placeholder p => p.token

def isFlow : Segment → Bool
  | .flow _ => true
  | _ => false

/-- The text of a literal piece, and nothing of the others. -/
def literal : Segment → Text
  | .text literal => literal
  | _ => []

def placeholder? : Segment → Option Placeholder
  | .placeholder p => some p
  | _ => none

/-- Pieces written one after the other. -/
def joinRaw (segments : List Segment) : Text := segments.flatMap raw

end Segment

/-- A decoded message: its text as it was found, and the pieces of it. -/
structure Message where
  text : Text
  segments : List Segment
deriving DecidableEq, Repr

namespace Message

/-- The distinct placeholders, in the order in which they first appear. -/
def placeholders (m : Message) : List Placeholder :=
  (m.segments.filterMap Segment.placeholder?).eraseDups

def plainText (m : Message) : Text := m.segments.flatMap Segment.literal

/-- The message as it is written, without the flow marks at its end. -/
def withoutTrailingFlow (m : Message) : Text :=
  Segment.joinRaw (m.segments.reverse.dropWhile Segment.isFlow).reverse

end Message

end Dialogue
