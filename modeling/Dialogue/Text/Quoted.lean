import Dialogue.Text.Basic
import Dialogue.Text.PrintTable

/-!
# Quoted text

A text in single quotes, or in double quotes if it holds a single quote and no double one. The
quote, the backslash and whatever is not printable are escaped.
-/

namespace Dialogue.Text

def isPrintable (c : Char) : Bool :=
  if c.toNat < 0x80 then 32 ≤ c.toNat && c.toNat ≤ 126
  else !inRanges unprintableRanges c.toNat

/-- The lowest hexadecimal digits of a number, `count` of them. -/
def hexDigits (n : Nat) : Nat → Text
  | 0 => []
  | count + 1 => hexDigits (n / 16) count ++ [Nat.digitChar (n % 16)]

/-- A character inside the given quotes. -/
def quoteChar (quote c : Char) : Text :=
  let n := c.toNat
  if c = quote ∨ c = '\\' then ['\\', c]
  else if c = '\t' then ['\\', 't']
  else if c = '\n' then ['\\', 'n']
  else if c = '\r' then ['\\', 'r']
  else if isPrintable c then [c]
  else if n ≤ 0xFF then '\\' :: 'x' :: hexDigits n 2
  else if n ≤ 0xFFFF then '\\' :: 'u' :: hexDigits n 4
  else '\\' :: 'U' :: hexDigits n 8

def quoted (text : Text) : Text :=
  let quote := if text.contains '\x27' && !text.contains '\x22' then '\x22' else '\x27'
  quote :: (text.flatMap (quoteChar quote) ++ [quote])

end Dialogue.Text
