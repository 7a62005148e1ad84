import Dialogue.Encoding.Fallback

/-!
# Encodings by their names

A name is written in upper or lower case, and any marks may stand between its letters and digits.
Some encodings have several names.
-/

namespace Dialogue.Encoding

/-- The letters and digits of a name in lower case, and a low line for marks between them. -/
def plainName : Text → Text
  | [] => []
  | c :: rest =>
    let tail := plainName rest
    if c.isAlphanum then c.toLower :: tail
    else if tail.isEmpty || tail.head? == some '_' then tail
    else '_' :: tail

def names : List (Encoding × List Text) :=
  [(.utf8, ["utf_8", "utf8", "utf", "u8", "cp65001"]),
   (.utf8Marked, ["utf_8_sig"]),
   (.utf16, ["utf_16", "utf16", "u16"]),
   (.utf16Little, ["utf_16_le", "utf_16le"]),
   (.utf16Big, ["utf_16_be", "utf_16be"]),
   (.windows1252, ["cp1252", "windows_1252", "1252"]),
   (.latin1, ["latin_1", "latin1", "latin", "l1", "iso8859_1", "iso_8859_1", "iso8859", "8859",
    "cp819"]),
   (.ascii, ["ascii", "us_ascii", "us", "646"])]

def ofName? (name : Text) : Option Encoding :=
  let plain := (plainName name).dropWhile (· == '_')
  (names.find? fun entry => entry.2.contains plain).map (·.1)

inductive ReadError
  | noEncoding
  | unknown (name : Text)
  | unfitting
deriving DecidableEq, Repr

def ReadError.message : ReadError → Text
  | .noEncoding => "exceptions must derive from BaseException"
  | .unknown name => "unknown encoding: " ++ name
  | .unfitting => []

/-- The text in the first named encoding that fits; where none is left, the given error. -/
def readFrom (failed : ReadError) : List Text → Bytes → Except ReadError Text
  | [], _ => .error failed
  | name :: rest, bytes =>
    match ofName? name with
    | none => .error (.unknown name)
    | some encoding =>
      match encoding.decode? bytes with
      | some text => .ok (dropMark text)
      | none => readFrom .unfitting rest bytes

def readNamed (names : List Text) (bytes : Bytes) : Except ReadError Text :=
  readFrom .noEncoding names bytes

end Dialogue.Encoding
