import Dialogue.Message.Basic

/-!
# Showing a message

A placeholder is shown as the name in square brackets of the command that fills it, or as its tag
if no name is known. Flow marks become line breaks, or are kept as they are.
-/

namespace Dialogue.Message

/-- What flow marks become. -/
inductive FlowStyle
  | breaks
  | tokens
deriving DecidableEq, Repr

/-- What stands for a placeholder: a name that is not empty, or the tag. -/
def renderPlaceholder (name : Option Text) (p : Placeholder) : Text :=
  match name with
  | some (c :: rest) => '[' :: (c :: rest ++ [']'])
  | _ => '[' :: (Text.ofNat p.tag ++ [']'])

/-- What stands for a flow mark: a soft break is one line end, the others are two. -/
def renderFlow (style : FlowStyle) (mark : Flow) : Text :=
  match style, mark with
  | .tokens, mark => mark.token
  | .breaks, .softBreak => ['\n']
  | .breaks, _ => ['\n', '\n']

def renderSegment (style : FlowStyle) (name : Placeholder → Option Text) : Segment → Text
  | .text literal => literal
  | .flow mark => renderFlow style mark
  | .placeholder p => renderPlaceholder (name p) p

def render (style : FlowStyle) (name : Placeholder → Option Text) (m : Message) : Text :=
  m.segments.flatMap (renderSegment style name)

end Dialogue.Message
