import Dialogue.Text.Blank
import Dialogue.Text.Digit

/-!
# Integers in text

Reading has a limit: a run of more than 4300 digits is refused, leading zeros included and the
sign not. Writing uses ASCII digits and has none.
-/

namespace Dialogue

/-- A run of digits too long to be read. -/
structure OverlongInteger where
  digits : Nat
deriving DecidableEq, Repr

namespace Text

def maxDigits : Nat := 4300

def ofNat (n : Nat) : Text := Nat.toDigits 10 n

/-- The decimal digits of a number, after a minus sign if it is negative. -/
def ofInt : Int → Text
  | .ofNat n => ofNat n
  | .negSucc n => '-' :: ofNat (n + 1)

/-- The number that a run of digits writes, if the run is not too long. -/
def readDigits (digits : Text) : Except OverlongInteger Nat :=
  if digits.length ≤ maxDigits then .ok (digitsValue digits) else .error ⟨digits.length⟩

/-- A sign, if there is one, and what follows it: `true` for minus. -/
def takeSign : Text → Bool × Text
  | '+' :: rest => (false, rest)
  | '-' :: rest => (true, rest)
  | rest => (false, rest)

/-- The integer at the start of a scalar, after blanks and a sign, whatever follows it. -/
def leadingInt? (text : Text) : Except OverlongInteger (Option Int) :=
  let signed := takeSign (trimStart text)
  let digits := signed.2.takeWhile isDecimal
  if digits.isEmpty then .ok none
  else (readDigits digits).map fun n => some (if signed.1 then -(n : Int) else n)

/-- Whether the character may stand around an integer: every blank may but the information
separators. -/
def isPadding (c : Char) : Bool := isBlank c && !(0x1C ≤ c.toNat && c.toNat ≤ 0x1F)

/-- The digits of a text of digits, where one underscore may stand between two of them. -/
def groupedDigits? : Text → Option Text
  | [] => none
  | [c] => if isDecimal c then some [c] else none
  | c :: '_' :: rest => if isDecimal c then (groupedDigits? rest).map (c :: ·) else none
  | c :: d :: rest => if isDecimal c then (groupedDigits? (d :: rest)).map (c :: ·) else none

/-- The integer that a whole text writes, with blanks around it. -/
def wholeInt? (text : Text) : Except OverlongInteger (Option Int) :=
  let start := text.dropWhile isPadding
  let signed := takeSign (start.reverse.dropWhile isPadding).reverse
  match groupedDigits? signed.2 with
  | none => .ok none
  | some digits => (readDigits digits).map fun n => some (if signed.1 then -(n : Int) else n)

end Text

def OverlongInteger.message (e : OverlongInteger) : Text :=
  "Exceeds the limit (4300 digits) for integer string conversion: value has "
    ++ Text.ofNat e.digits
    ++ " digits; use sys.set_int_max_str_digits() to increase the limit"

end Dialogue
