import Dialogue.Encoding.Utf8

/-!
# Encodings of one byte a character

Latin-1 is the first 256 code points. Windows-1252 differs from it in the two rows after ASCII,
where five bytes stand for nothing.
-/

namespace Dialogue

/-- The characters of the bytes 0x80 to 0x9F in Windows-1252. -/
def Windows1252.upper : List (Option Char) :=
  [some '€', none, some '‚', some 'ƒ', some '„', some '…', some '†', some '‡',
   some 'ˆ', some '‰', some 'Š', some '‹', some 'Œ', none, some 'Ž', none,
   none, some '‘', some '’', some '“', some '”', some '•', some '–', some '—',
   some '˜', some '™', some 'š', some '›', some 'œ', none, some 'ž', some 'Ÿ']

def Windows1252.char? (b : UInt8) : Option Char :=
  if 0x80 ≤ b.toNat ∧ b.toNat < 0xA0 then (upper[b.toNat - 0x80]?).join
  else some (Char.ofNat b.toNat)

/-- The text of the bytes in Windows-1252, if each byte has a character. -/
def Windows1252.decode? (bytes : Bytes) : Option Text := bytes.mapM char?

def Latin1.decode (bytes : Bytes) : Text := bytes.map fun b => Char.ofNat b.toNat

end Dialogue
