import Dialogue.Text.Basic
import Dialogue.Text.WordTable

/-!
# Words

A word is a run of letters, numbers and underscores of any script.
-/

namespace Dialogue.Text

def isWord (c : Char) : Bool :=
  c.isAlphanum || c == '_' || (0x80 ≤ c.toNat && inRanges wordRanges c.toNat)

/-- The word at the start of the text and the rest, if the text starts with one. -/
def takeWord? (text : Text) : Option (Text × Text) :=
  let word := text.takeWhile isWord
  if word.isEmpty then none else some (word, text.dropWhile isWord)

end Dialogue.Text
