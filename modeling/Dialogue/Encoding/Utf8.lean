import Dialogue.Text.Basic

/-!
# UTF-8

A character takes one to four bytes, and never more than it needs. Bytes that are no character are
cut where the first byte shows it that could not continue them.
-/

namespace Dialogue

abbrev Bytes := List UInt8

namespace Utf8

def encodeChar (c : Char) : Bytes :=
  let n := c.toNat
  if n < 0x80 then [.ofNat n]
  else if n < 0x800 then [.ofNat (0xC0 + n / 64), .ofNat (0x80 + n % 64)]
  else if n < 0x10000 then
    [.ofNat (0xE0 + n / 4096), .ofNat (0x80 + n / 64 % 64), .ofNat (0x80 + n % 64)]
  else
    [.ofNat (0xF0 + n / 262144), .ofNat (0x80 + n / 4096 % 64), .ofNat (0x80 + n / 64 % 64),
      .ofNat (0x80 + n % 64)]

def encode (text : Text) : Bytes := text.flatMap encodeChar

/-- What a first byte tells: its own bits, how many bytes follow, and the range of the next one. -/
structure Lead where
  bits : Nat
  following : Nat
  low : Nat
  high : Nat
deriving DecidableEq, Repr

/-- What a byte tells as the first one of a character, if it can be one. -/
def lead? (n : Nat) : Option Lead :=
  if n < 0x80 then some ⟨n, 0, 0x80, 0xBF⟩
  else if n < 0xC2 then none
  else if n < 0xE0 then some ⟨n - 0xC0, 1, 0x80, 0xBF⟩
  else if n < 0xF0 then
    some ⟨n - 0xE0, 2, if n = 0xE0 then 0xA0 else 0x80, if n = 0xED then 0x9F else 0xBF⟩
  else if n < 0xF5 then
    some ⟨n - 0xF0, 3, if n = 0xF0 then 0x90 else 0x80, if n = 0xF4 then 0x8F else 0xBF⟩
  else none

/-- The number of a character after its first byte, and the bytes that are left. -/
def follow (bits low high : Nat) : Nat → Bytes → Option Nat × Bytes
  | 0, rest => (some bits, rest)
  | _ + 1, [] => (none, [])
  | following + 1, b :: rest =>
    if low ≤ b.toNat ∧ b.toNat ≤ high then
      follow (64 * bits + (b.toNat - 0x80)) 0x80 0xBF following rest
    else (none, b :: rest)

theorem follow_length (bits low high following : Nat) (bytes : Bytes) :
    (follow bits low high following bytes).2.length ≤ bytes.length := by
  induction following generalizing bits low high bytes with
  | zero => simp [follow]
  | succ following ih =>
    cases bytes with
    | nil => simp [follow]
    | cons b rest =>
      simp only [follow]
      split
      · have := ih (64 * bits + (b.toNat - 0x80)) 0x80 0xBF rest
        simp only [List.length_cons]
        omega
      · simp

/-- The first character, or none where the bytes are none, and the bytes that are left. -/
def next (b : UInt8) (rest : Bytes) : Option Char × Bytes :=
  match lead? b.toNat with
  | none => (none, rest)
  | some lead =>
    let followed := follow lead.bits lead.low lead.high lead.following rest
    (followed.1.map Char.ofNat, followed.2)

theorem next_length (b : UInt8) (rest : Bytes) : (next b rest).2.length ≤ rest.length := by
  unfold next
  split
  · simp
  · exact follow_length ..

/-- The characters of the bytes; none for each run of bytes that is no character. -/
def units : Bytes → List (Option Char)
  | [] => []
  | b :: rest =>
    have := next_length b rest
    (next b rest).1 :: units (next b rest).2
termination_by bytes => bytes.length
decreasing_by simp only [List.length_cons]; omega

def decode? (bytes : Bytes) : Option Text := (units bytes).mapM id

/-- The bytes without the byte order mark at their start. -/
def dropMark : Bytes → Bytes
  | 0xEF :: 0xBB :: 0xBF :: rest => rest
  | bytes => bytes

/-- The text of the bytes, with a mark for each run of bytes that is no character. -/
def decodeLossy (bytes : Bytes) : Text := (units bytes).map fun unit => unit.getD '\uFFFD'

end Utf8

end Dialogue
