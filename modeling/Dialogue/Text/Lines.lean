import Dialogue.Text.Basic

/-!
# Lines

The line terminators are line feed, carriage return, both together, vertical tab, form feed, the
file, group and record separators, the next-line control, and the line and paragraph separators.
A terminator at the end opens no further line.
-/

namespace Dialogue.Text

def isLineEnd (c : Char) : Bool :=
  let n := c.toNat
  (10 ≤ n && n ≤ 13) || (0x1C ≤ n && n ≤ 0x1E) || n == 0x85 || n == 0x2028 || n == 0x2029

/-- The lines of a text, without their terminators. -/
def lines : Text → List Text
  | [] => []
  | '\r' :: '\n' :: rest => [] :: lines rest
  | c :: rest => if isLineEnd c then [] :: lines rest else consFirst c (lines rest)

/-- The lines as one text, a line feed between two of them. -/
def unlines (lines : List Text) : Text := join newline lines

end Dialogue.Text
