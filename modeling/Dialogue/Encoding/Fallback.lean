import Dialogue.Encoding.Utf16
import Dialogue.Encoding.Windows1252

/-!
# Reading bytes whose encoding is not known

The encodings are tried in turn and the first one that fits is taken. A mark that is left at the
start of the text is dropped, once.
-/

namespace Dialogue

/-- An encoding of text. The two orders of UTF-16 know no mark, and marked UTF-8 has one that is no
part of the text. -/
inductive Encoding
  | utf8
  | utf16
  | windows1252
  | latin1
  | ascii
  | utf8Marked
  | utf16Little
  | utf16Big
deriving DecidableEq, Repr

namespace Encoding

def decode? : Encoding → Bytes → Option Text
  | .utf8, bytes => Utf8.decode? bytes
  | .utf16, bytes => Utf16.decode? bytes
  | .windows1252, bytes => Windows1252.decode? bytes
  | .latin1, bytes => some (Latin1.decode bytes)
  | .ascii, bytes => if bytes.all (· < 0x80) then some (Latin1.decode bytes) else none
  | .utf8Marked, bytes => Utf8.decode? (Utf8.dropMark bytes)
  | .utf16Little, bytes => (Utf16.codeUnits? false bytes).bind Utf16.chars?
  | .utf16Big, bytes => (Utf16.codeUnits? true bytes).bind Utf16.chars?

/-- The encodings in the order in which files are read. -/
def fallback : List Encoding := [.utf8, .utf16, .windows1252, .latin1]

/-- The text without a byte order mark at its start. -/
def dropMark : Text → Text
  | '\uFEFF' :: rest => rest
  | text => text

def readWith? (encodings : List Encoding) (bytes : Bytes) : Option Text :=
  (encodings.findSome? fun encoding => encoding.decode? bytes).map dropMark

/-- The text of a file. The last encoding fits all bytes, so the empty text never stands in. -/
def read (bytes : Bytes) : Text := (readWith? fallback bytes).getD []

end Encoding

end Dialogue
