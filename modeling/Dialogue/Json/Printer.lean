import Dialogue.Json.Basic

/-!
# Writing JSON

Files are written with one item or field a line, two blanks deeper for each level; an answer is
written on one line. Quotes, backslashes and control characters are escaped, and on request all
that is not printable ASCII.
-/

namespace Dialogue.Json

/-- Which characters are written as they are: all from the space on, or printable ASCII alone. -/
inductive Charset
  | unicode
  | ascii
deriving DecidableEq, Repr

def hexDigit (n : Nat) : Char := if n < 10 then Char.ofNat (48 + n) else Char.ofNat (87 + n)

/-- A code unit as an escape of four hexadecimal digits. -/
def unitEscape (unit : Nat) : Text :=
  ['\\', 'u', hexDigit (unit / 4096 % 16), hexDigit (unit / 256 % 16), hexDigit (unit / 16 % 16),
    hexDigit (unit % 16)]

/-- The escape of a character; two code units for one beyond U+FFFF. -/
def codeEscape (c : Char) : Text :=
  let n := c.toNat
  if n < 0x10000 then unitEscape n
  else unitEscape (0xD800 + (n - 0x10000) / 0x400) ++ unitEscape (0xDC00 + (n - 0x10000) % 0x400)

/-- One character of a string as it is written. -/
def writeChar (charset : Charset) (c : Char) : Text :=
  if c = '\x22' then ['\\', '\x22']
  else if c = '\\' then ['\\', '\\']
  else if c = '\n' then ['\\', 'n']
  else if c = '\r' then ['\\', 'r']
  else if c = '\t' then ['\\', 't']
  else if c = '\x0c' then ['\\', 'f']
  else if c = '\x08' then ['\\', 'b']
  else if c.toNat < 32 then codeEscape c
  else if charset = .ascii ∧ 126 < c.toNat then codeEscape c
  else [c]

def writeString (charset : Charset) (s : Text) : Text :=
  '\x22' :: (s.flatMap (writeChar charset) ++ ['\x22'])

def writeScalar (charset : Charset) : Json → Text
  | .null => "null"
  | .bool true => "true"
  | .bool false => "false"
  | .int n => Text.ofInt n
  | .double d => d.write "Infinity" "NaN"
  | .string s => writeString charset s
  | .array _ => "[]"
  | .object _ => "\x7b\x7d"

/-- A line end and the blanks of a depth. -/
def indent (depth : Nat) : Text := '\n' :: List.replicate (2 * depth) ' '

mutual

/-- A value that starts on a line of the given depth. -/
def writeAt (charset : Charset) (depth : Nat) : Json → Text
  | .array (item :: rest) =>
    '[' :: (indent (depth + 1) ++ writeAt charset (depth + 1) item
      ++ writeItems charset depth rest)
  | .object ((name, item) :: rest) =>
    '\x7b' :: (indent (depth + 1) ++ writeString charset name ++ ": "
      ++ writeAt charset (depth + 1) item ++ writeFields charset depth rest)
  | .array [] => "[]"
  | .object [] => "\x7b\x7d"
  | .null => writeScalar charset .null
  | .bool b => writeScalar charset (.bool b)
  | .int n => writeScalar charset (.int n)
  | .double d => writeScalar charset (.double d)
  | .string s => writeScalar charset (.string s)

/-- The items after the first one, and the closing bracket. -/
def writeItems (charset : Charset) (depth : Nat) : List Json → Text
  | [] => indent depth ++ "]"
  | item :: rest =>
    ',' :: (indent (depth + 1) ++ writeAt charset (depth + 1) item
      ++ writeItems charset depth rest)

/-- The fields after the first one, and the closing brace. -/
def writeFields (charset : Charset) (depth : Nat) : List (Text × Json) → Text
  | [] => indent depth ++ "\x7d"
  | (name, item) :: rest =>
    ',' :: (indent (depth + 1) ++ writeString charset name ++ ": "
      ++ writeAt charset (depth + 1) item ++ writeFields charset depth rest)

end

/-- A value as the text of a file. -/
def pretty (charset : Charset) (v : Json) : Text := writeAt charset 0 v

/-- What stands in the way of writing a value: it nests deeper than the one who writes can go, or an
integer has too many digits to be written out. -/
inductive WriteError
  | tooDeep
  | overlong
deriving DecidableEq, Repr

def WriteError.message : WriteError → Text
  | .tooDeep => "maximum recursion depth exceeded"
  | .overlong => "Exceeds the limit (4300 digits) for integer string conversion; use "
      ++ "sys.set_int_max_str_digits() to increase the limit"

mutual

/-- What the writing of a value ends with, where `room` containers may be open at once; none if the
whole value is written. -/
def fault? : Nat → Json → Option WriteError
  | _, .int n => if (Text.ofNat n.natAbs).length ≤ Text.maxDigits then none else some .overlong
  | 0, .array _ => some .tooDeep
  | 0, .object _ => some .tooDeep
  | room + 1, .array items => itemFault? room items
  | room + 1, .object fields => fieldFault? room fields
  | _, .null => none
  | _, .bool _ => none
  | _, .double _ => none
  | _, .string _ => none

def itemFault? (room : Nat) : List Json → Option WriteError
  | [] => none
  | item :: rest => (fault? room item).orElse fun _ => itemFault? room rest

def fieldFault? (room : Nat) : List (Text × Json) → Option WriteError
  | [] => none
  | (_, item) :: rest => (fault? room item).orElse fun _ => fieldFault? room rest

end

mutual

/-- A value on one line, printable ASCII alone. -/
def compact : Json → Text
  | .array items => '[' :: compactItems items
  | .object fields => '\x7b' :: compactFields fields
  | .null => "null"
  | .bool b => writeScalar .ascii (.bool b)
  | .int n => writeScalar .ascii (.int n)
  | .double d => writeScalar .ascii (.double d)
  | .string s => writeScalar .ascii (.string s)

/-- The items on one line, and the closing bracket. -/
def compactItems : List Json → Text
  | [] => "]"
  | [item] => compact item ++ "]"
  | item :: rest => compact item ++ ',' :: compactItems rest

/-- The fields on one line, and the closing brace. -/
def compactFields : List (Text × Json) → Text
  | [] => "\x7d"
  | [(name, item)] => writeString .ascii name ++ ':' :: compact item ++ "\x7d"
  | (name, item) :: rest =>
    writeString .ascii name ++ ':' :: compact item ++ ',' :: compactFields rest

end

end Dialogue.Json
