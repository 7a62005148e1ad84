import Dialogue.Encoding.Utf8

/-!
# UTF-16

A mark at the start tells the order of the two bytes of a unit; without one the low byte comes
first. Two units, a high and a low surrogate, make one character beyond U+FFFF.
-/

namespace Dialogue.Utf16

/-- The code units of the bytes, if their number is even; `big` puts the high byte first. -/
def codeUnits? (big : Bool) : Bytes → Option (List Nat)
  | [] => some []
  | [_] => none
  | a :: b :: rest =>
    (codeUnits? big rest).map
      ((if big then 256 * a.toNat + b.toNat else 256 * b.toNat + a.toNat) :: ·)

/-- Whether the unit is the first one of a pair. -/
def isHigh (unit : Nat) : Bool := 0xD800 ≤ unit && unit ≤ 0xDBFF

/-- Whether the unit is the second one of a pair. -/
def isLow (unit : Nat) : Bool := 0xDC00 ≤ unit && unit ≤ 0xDFFF

/-- The characters of code units, if every surrogate is in a pair. -/
def chars? : List Nat → Option Text
  | [] => some []
  | unit :: rest =>
    if isHigh unit then
      match rest with
      | low :: more =>
        if isLow low then
          (chars? more).map (Char.ofNat (0x10000 + (unit - 0xD800) * 0x400 + (low - 0xDC00)) :: ·)
        else none
      | [] => none
    else if isLow unit then none
    else (chars? rest).map (Char.ofNat unit :: ·)

/-- The text of the bytes, without the mark of the byte order. -/
def decode? (bytes : Bytes) : Option Text :=
  match bytes with
  | 0xFF :: 0xFE :: rest => (codeUnits? false rest).bind chars?
  | 0xFE :: 0xFF :: rest => (codeUnits? true rest).bind chars?
  | bytes => (codeUnits? false bytes).bind chars?

end Dialogue.Utf16
