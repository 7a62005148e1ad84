import Dialogue.Text.Basic

/-!
# Blanks

White space and the four information separators. Trimming takes them off both ends.
-/

namespace Dialogue.Text

/-- The blanks: tab to carriage return, the information separators, the space, the next-line
control, and the spaces and separators beyond Latin. -/
def isBlank (c : Char) : Bool :=
  let n := c.toNat
  (9 ≤ n && n ≤ 13) || (0x1C ≤ n && n ≤ 0x20) || n == 0x85 || n == 0xA0 || n == 0x1680
    || (0x2000 ≤ n && n ≤ 0x200A) || n == 0x2028 || n == 0x2029 || n == 0x202F || n == 0x205F
    || n == 0x3000

/-- The text from its first character that is not blank. -/
def trimStart (text : Text) : Text := text.dropWhile isBlank

/-- The text up to its last character that is not blank. -/
def trimEnd (text : Text) : Text := (text.reverse.dropWhile isBlank).reverse

def trim (text : Text) : Text := trimEnd (trimStart text)

end Dialogue.Text
