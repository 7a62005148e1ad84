import Dialogue.Json.Basic

/-!
# Reading JSON

The grammar of the standard with three words more: `NaN`, `Infinity` and `-Infinity`. Blanks are
space, tab and the two line ends, and a string holds no control character. An integer has at most
4300 digits, and arrays and objects nest only so deep as the one who reads can go. An escape for one
half of a surrogate pair that stands alone is refused, since it is no character.
-/

namespace Dialogue.Json

/-- What other values nest in. -/
inductive Container
  | array
  | object
deriving DecidableEq, Repr

def Container.word : Container → Text
  | .array => "array"
  | .object => "object"

/-- The wording of the refusal to read a container that is nested too deep. -/
def Container.tooDeep (container : Container) : Text :=
  "maximum recursion depth exceeded while decoding a JSON " ++ container.word
    ++ " from a unicode string"

/-- The wording of the refusal to read half of a surrogate pair. -/
def unpairedMessage : Text := "surrogates not allowed"

inductive ParseError
  | malformed
  | overlong (e : OverlongInteger)
  | tooDeep (container : Container)
  | unpaired
deriving DecidableEq, Repr

/-- What is read and what is left. -/
abbrev Read (α : Type) := Except ParseError (α × Text)

/-- The text from its first character that is no blank. -/
def skipBlanks (text : Text) : Text :=
  text.dropWhile fun c => c == ' ' || c == '\t' || c == '\n' || c == '\r'

def hexDigit? (c : Char) : Option Nat :=
  let n := c.toNat
  if c.isDigit then some (n - 48)
  else if 97 ≤ n ∧ n ≤ 102 then some (n - 87)
  else if 65 ≤ n ∧ n ≤ 70 then some (n - 55)
  else none

/-- The code unit of four hexadecimal digits. -/
def codeUnit? : Text → Option (Nat × Text)
  | a :: b :: c :: d :: rest => do
    let a ← hexDigit? a
    let b ← hexDigit? b
    let c ← hexDigit? c
    let d ← hexDigit? d
    some (((a * 16 + b) * 16 + c) * 16 + d, rest)
  | _ => none

/-- The character of a code unit; half of a surrogate pair is none. -/
def charOfUnit? (unit : Nat) : Option Char :=
  if 0xD800 ≤ unit ∧ unit ≤ 0xDFFF then none else some (Char.ofNat unit)

/-- The character, if it is one, of an escape with the letter `u`, two escapes for one beyond
U+FFFF. -/
def unicodeEscape? (text : Text) : Option (Option Char × Text) :=
  match codeUnit? text with
  | none => none
  | some (high, rest) =>
    match rest with
    | '\\' :: 'u' :: more =>
      match codeUnit? more with
      | some (low, tail) =>
        if 0xD800 ≤ high ∧ high ≤ 0xDBFF ∧ 0xDC00 ≤ low ∧ low ≤ 0xDFFF then
          some (some (Char.ofNat (0x10000 + (high - 0xD800) * 0x400 + (low - 0xDC00))), tail)
        else some (charOfUnit? high, rest)
      | none => some (charOfUnit? high, rest)
    | _ => some (charOfUnit? high, rest)

/-- The character of an escape with one letter. -/
def letterEscape? : Char → Option Char
  | '\x22' => some '\x22'
  | '\\' => some '\\'
  | '/' => some '/'
  | 'b' => some '\x08'
  | 'f' => some '\x0c'
  | 'n' => some '\n'
  | 'r' => some '\r'
  | 't' => some '\t'
  | _ => none

/-- One character of a string, if its escape is one, and what follows it; none at the closing quote,
at a control character, at a bad escape and at the end. -/
def stringChar? : Text → Option (Option Char × Text)
  | '\\' :: 'u' :: rest => unicodeEscape? rest
  | '\\' :: c :: rest => (letterEscape? c).map (some ·, rest)
  | '\\' :: [] => none
  | '\x22' :: _ => none
  | c :: rest => if c.toNat < 32 then none else some (some c, rest)
  | [] => none

/-- The rest of a string after its opening quote. -/
def stringTail : Nat → Text → Read Text
  | 0, _ => .error .malformed
  | fuel + 1, text =>
    match stringChar? text with
    | some (some c, rest) => (stringTail fuel rest).map fun (s, tail) => (c :: s, tail)
    | some (none, _) => .error .unpaired
    | none =>
      match text with
      | '\x22' :: rest => .ok ([], rest)
      | _ => .error .malformed

def spanDigits (text : Text) : Text × Text :=
  (text.takeWhile Char.isDigit, text.dropWhile Char.isDigit)

/-- The digits after a point, if at least one follows it. -/
def fraction? : Text → Option (Text × Text)
  | '.' :: rest =>
    let (digits, tail) := spanDigits rest
    if digits.isEmpty then none else some (digits, tail)
  | _ => none

/-- An exponent, if it has at least one digit. -/
def exponent? : Text → Option (Int × Text)
  | e :: rest =>
    if e = 'e' ∨ e = 'E' then
      let (negative, rest) := Text.takeSign rest
      let (digits, tail) := spanDigits rest
      if digits.isEmpty then none
      else
        let n : Int := Text.digitsValue digits
        some (if negative then -n else n, tail)
    else none
  | [] => none

/-- The digits of the integral part: a lone zero, or a run that starts with another digit. -/
def integral? (text : Text) : Option (Text × Text) :=
  match text with
  | '0' :: rest => some (['0'], rest)
  | _ =>
    let (digits, rest) := spanDigits text
    if digits.isEmpty then none else some (digits, rest)

/-- A number. It is an integer exactly if it has neither fraction nor exponent. -/
def number (text : Text) : Read Json :=
  let (negative, body) : Bool × Text :=
    match text with
    | '-' :: rest => (true, rest)
    | _ => (false, text)
  match integral? body with
  | none => .error .malformed
  | some (digits, rest) =>
    match fraction? rest, exponent? rest with
    | none, none =>
      match Text.readDigits digits with
      | .error e => .error (.overlong e)
      | .ok n => .ok (.int (if negative then -(n : Int) else n), rest)
    | none, some (power, tail) =>
      .ok (.double (.ofDecimal negative (Text.digitsValue digits) power), tail)
    | some (places, rest), _ =>
      let value := Text.digitsValue (digits ++ places)
      match exponent? rest with
      | none => .ok (.double (.ofDecimal negative value (-(places.length : Int))), rest)
      | some (power, tail) =>
        .ok (.double (.ofDecimal negative value (power - places.length)), tail)

/-- The words that are values, and their values. -/
def words : List (Text × Json) :=
  [("null", .null), ("true", .bool true), ("false", .bool false), ("NaN", .double .nan),
   ("Infinity", .double (.infinite false)), ("-Infinity", .double (.infinite true))]

/-- A value that is one word or a number. -/
def scalar (text : Text) : Read Json :=
  match words.findSome? fun word => (Text.after? word.1 text).map (word.2, ·) with
  | some found => .ok found
  | none => number text

mutual

/-- A value that starts at the first character; `room` more containers may be opened for it. -/
def value : Nat → Nat → Text → Read Json
  | 0, _, _ => .error .malformed
  | fuel + 1, room, text =>
    match text, room with
    | '\x22' :: rest, _ =>
      (stringTail (rest.length + 1) rest).map fun (s, tail) => (.string s, tail)
    | '[' :: _, 0 => .error (.tooDeep .array)
    | '[' :: rest, room + 1 =>
      match skipBlanks rest with
      | ']' :: tail => .ok (.array [], tail)
      | inner => (items fuel room inner).map fun (xs, tail) => (.array xs, tail)
    | '\x7b' :: _, 0 => .error (.tooDeep .object)
    | '\x7b' :: rest, room + 1 =>
      match skipBlanks rest with
      | '\x7d' :: tail => .ok (.object [], tail)
      | inner => (fields fuel room inner).map fun (xs, tail) => (ofFields xs, tail)
    | _, _ => scalar text

/-- The items of an array from the first character of one of them to the closing bracket. -/
def items : Nat → Nat → Text → Read (List Json)
  | 0, _, _ => .error .malformed
  | fuel + 1, room, text =>
    match value fuel room text with
    | .error e => .error e
    | .ok (item, rest) =>
      match skipBlanks rest with
      | ']' :: tail => .ok ([item], tail)
      | ',' :: more => (items fuel room (skipBlanks more)).map fun (xs, tail) => (item :: xs, tail)
      | _ => .error .malformed

/-- The fields of an object from the quote of a name to the closing brace. -/
def fields : Nat → Nat → Text → Read (List (Text × Json))
  | 0, _, _ => .error .malformed
  | fuel + 1, room, text =>
    match text with
    | '\x22' :: quoted =>
      match stringTail (quoted.length + 1) quoted with
      | .error e => .error e
      | .ok (name, rest) =>
        match skipBlanks rest with
        | ':' :: more =>
          match value fuel room (skipBlanks more) with
          | .error e => .error e
          | .ok (item, rest) =>
            match skipBlanks rest with
            | '\x7d' :: tail => .ok ([(name, item)], tail)
            | ',' :: more =>
              (fields fuel room (skipBlanks more)).map fun (xs, tail) => ((name, item) :: xs, tail)
            | _ => .error .malformed
        | _ => .error .malformed
    | _ => .error .malformed

end

/-- The value that the whole text writes, blanks around it allowed, where at most `limit` containers
may be open at once. -/
def parse (limit : Nat) (text : Text) : Except ParseError Json :=
  match value (2 * text.length + 2) limit (skipBlanks text) with
  | .error e => .error e
  | .ok (v, rest) => if (skipBlanks rest).isEmpty then .ok v else .error .malformed

end Dialogue.Json
