import Dialogue.Text.Integer

/-!
# Binary floating-point numbers, exactly

A number of 53 significant bits is its sign, its mantissa and its exponent of two, so reading a
decimal and writing the shortest one are arithmetic on natural numbers. Reading rounds to the
nearest number, ties to the even mantissa. Writing uses the fewest digits that read back, and of
two such texts the nearer one.
-/

namespace Dialogue.Json

/-- A floating-point number; the finite one is `mantissa * 2 ^ exponent` with its sign. -/
inductive Double
  | finite (negative : Bool) (mantissa : Nat) (exponent : Int)
  | infinite (negative : Bool)
  | nan
deriving DecidableEq, Repr

namespace Double

-- The powers here are one function whichever library stands behind the notation elsewhere.
local instance (priority := 2000) naturalPower : Pow Nat Nat := ⟨Nat.pow⟩

/-- The bits of a mantissa. -/
def precision : Nat := 53

def minExponent : Int := -1074

def maxExponent : Int := 971

def zero (negative : Bool) : Double := .finite negative 0 minExponent

/-- `num / den` as a quotient of natural numbers after multiplication by `base ^ power`. -/
def scale (base : Nat) (num den : Nat) : Int → Nat × Nat
  | .ofNat power => (num * base ^ power, den)
  | .negSucc power => (num, den * base ^ (power + 1))

/-- The nearest integer to `num / den`; a half goes to the even neighbour. -/
def roundHalfEven (num den : Nat) : Nat :=
  let quotient := num / den
  let twice := 2 * (num % den)
  if twice < den then quotient
  else if den < twice then quotient + 1
  else if quotient % 2 = 0 then quotient else quotient + 1

/-- The exponent that gives `num / den` a mantissa of full precision, or the least one. -/
def exponentOf (num den : Nat) : Int :=
  let guess : Int := Nat.log2 num - Nat.log2 den - (precision - 1 : Nat)
  let scaled := scale 2 num den (-guess)
  max minExponent (if scaled.1 < 2 ^ (precision - 1) * scaled.2 then guess - 1 else guess)

/-- The number nearest to `num / den`. -/
def ofRatio (negative : Bool) (num den : Nat) : Double :=
  if num = 0 then zero negative
  else
    let exponent := exponentOf num den
    let scaled := scale 2 num den (-exponent)
    let mantissa := roundHalfEven scaled.1 scaled.2
    let (mantissa, exponent) :=
      if mantissa = 2 ^ precision then (2 ^ (precision - 1), exponent + 1)
      else (mantissa, exponent)
    if maxExponent < exponent then .infinite negative else .finite negative mantissa exponent

/-- The number nearest to `digits * 10 ^ power`. Powers far outside the range are not computed. -/
def ofDecimal (negative : Bool) (digits : Nat) (power : Int) : Double :=
  let size : Int := (Text.ofNat digits).length
  if digits = 0 then zero negative
  else if 310 < size + power then .infinite negative
  else if size + power < -330 then zero negative
  else
    let scaled := scale 10 digits 1 power
    ofRatio negative scaled.1 scaled.2

/-- The power of ten of the first digit of `num / den`, which is not zero. -/
def magnitude (num den : Nat) : Int :=
  if den ≤ num then ((Text.ofNat (num / den)).length : Int) - 1
  else
    let size := (Text.ofNat (den / num)).length
    if den = num * 10 ^ (size - 1) then -((size : Int) - 1) else -(size : Int)

/-- The decimal of `count` digits next to `num / den` that reads back as the number, the nearer
one if both neighbours do, and the even one if both are as near. -/
def candidate? (mantissa : Nat) (exponent : Int) (count : Nat) : Option (Nat × Int) :=
  let (num, den) := scale 2 mantissa 1 exponent
  let power := magnitude num den - ((count : Int) - 1)
  let (num, den) := scale 10 num den (-power)
  let low := num / den
  let readsBack (digits : Nat) := ofDecimal false digits power == .finite false mantissa exponent
  match readsBack low, readsBack (low + 1) with
  | true, true => some (roundHalfEven num den, power)
  | true, false => some (low, power)
  | false, true => some (low + 1, power)
  | false, false => none

/-- The exact decimal of `mantissa * 2 ^ exponent`. -/
def exact (mantissa : Nat) : Int → Nat × Int
  | .ofNat power => (mantissa * 2 ^ power, 0)
  | .negSucc power => (mantissa * 5 ^ (power + 1), .negSucc power)

/-- The shortest decimal that reads back as `mantissa * 2 ^ exponent`: digits and power of ten. -/
def shortest (mantissa : Nat) (exponent : Int) : Nat × Int :=
  ((List.range 17).findSome? fun n => candidate? mantissa exponent (n + 1)).getD
    (exact mantissa exponent)

/-- The digits without the zeros at the end, and the place of the point in front of which they
would start at nought. -/
def significand (digits : Nat) (power : Int) : Text × Int :=
  let all := Text.ofNat digits
  let kept := (all.reverse.dropWhile (· == '0')).reverse
  (kept, all.length + power)

/-- Digits with a point or an exponent. Positional from 1e-4 to below 1e16, with a digit on both
sides of the point; else one digit before the point and an exponent of at least two digits. -/
def layout (digits : Text) (point : Int) : Text :=
  if -4 < point ∧ point ≤ 16 then
    if point ≤ 0 then
      "0." ++ List.replicate (-point).toNat '0' ++ digits
    else if digits.length ≤ point.toNat then
      digits ++ List.replicate (point.toNat - digits.length) '0' ++ ".0"
    else digits.take point.toNat ++ "." ++ digits.drop point.toNat
  else
    let power := point - 1
    let size := Text.ofNat power.natAbs
    digits.take 1 ++ (if digits.length = 1 then [] else '.' :: digits.drop 1)
      ++ (if power < 0 then "e-" else "e+")
      ++ (if size.length < 2 then '0' :: size else size)

/-- The text of a number, with the given words for the infinite one and for no number. -/
def write (infinity noNumber : Text) : Double → Text
  | .finite negative mantissa exponent =>
    (if negative then ['-'] else []) ++
      (if mantissa = 0 then ("0.0" : Text)
      else
        let decimal := shortest mantissa exponent
        let parts := significand decimal.1 decimal.2
        layout parts.1 parts.2)
  | .infinite negative => (if negative then ['-'] else []) ++ infinity
  | .nan => noNumber

/-- Whether the number is an integer, and which. -/
def toInt? : Double → Option Int
  | .finite negative mantissa exponent =>
    let scaled := scale 2 mantissa 1 exponent
    if scaled.1 % scaled.2 = 0 then
      let n : Int := (scaled.1 / scaled.2 : Nat)
      some (if negative then -n else n)
    else none
  | _ => none

def isZero : Double → Bool
  | .finite _ mantissa _ => mantissa == 0
  | _ => false

/-- Whether two numbers are one value: the two zeros are, and so is what is no number. -/
def same (a b : Double) : Bool := a == b || (a.isZero && b.isZero)

end Double

end Dialogue.Json
