import Dialogue.Dump.Line
import Dialogue.Log
import Dialogue.Table
import Dialogue.Text.Integer

/-!
# Name tables

The names of species, items and forms stand in dumps of their own. An entry is a heading and,
anywhere after it, the first literal; the next heading is looked for behind that literal.
-/

namespace Dialogue.Dump

/-- What a name is looked up by: its number, or the numbers of a species and a form. -/
inductive NameKey
  | index (n : Nat)
  | form (key : Text)
deriving DecidableEq, Repr

abbrev Names := Table NameKey Text

/-- A run of digits at the start of the text, and the rest. -/
def takeDigits? (text : Text) : Option (Text × Text) :=
  let digits := text.takeWhile Text.isDecimal
  if digits.isEmpty then none else some (digits, text.dropWhile Text.isDecimal)

def formMarker : Text := "ZKN_FORM_"

/-- How the heading of an entry begins. -/
inductive Heading
  | index
  | form
deriving DecidableEq, Repr

def Heading.key : Heading → Text
  | .index => arrayIndexKey
  | .form => labelNameKey

/-- The runs of digits in a heading after its key, and what follows the last of them: the number
of an entry, or the species and the form in a label. -/
def Heading.digits? (heading : Heading) (text : Text) : Option (List Text × Text) :=
  match heading with
  | .index => do
    let (number, rest) ← takeDigits? (Text.trimStart text)
    some ([number], rest)
  | .form => do
    let rest ← Text.after? formMarker (Text.trimStart text)
    let (species, rest) ← takeDigits? rest
    let rest ← Text.after? ['_'] rest
    let (shape, rest) ← takeDigits? rest
    some ([species, shape], rest)

/-- The key of an entry, if its numbers can be read. -/
def readKey : List Text → Except OverlongInteger NameKey
  | [species, shape] => do
    let species ← Text.readDigits species
    let shape ← Text.readDigits shape
    .ok (.form (Text.ofNat species ++ '_' :: Text.ofNat shape))
  | digits => (Text.readDigits digits.flatten).map .index

/-- The value of a literal: the rest of its line, trimmed and without its quotes. -/
def literalValue (text : Text) : Text :=
  unquote (Text.trim ((text.dropWhile fun c => c == ' ' || c == '\t').takeWhile (· != '\n')))

/-- The entry whose heading starts the text: its digits, its name, and the rest of the dump from
the end of the line that holds the name. -/
def entryAt? (heading : Heading) (text : Text) : Option (List Text × Text × Text) := do
  let rest ← Text.after? heading.key text
  let (digits, rest) ← heading.digits? rest
  let rest ← Text.afterFirst? literalKey rest
  some (digits, literalValue rest, rest.dropWhile (· != '\n'))

theorem takeDigits?_length {text digits rest : Text} (h : takeDigits? text = some (digits, rest)) :
    rest.length ≤ text.length := by
  unfold takeDigits? at h
  simp only at h
  split at h
  · simp at h
  · simp only [Option.some.injEq, Prod.mk.injEq] at h
    exact h.2 ▸ Text.dropWhile_length _ _

theorem Heading.digits?_length {heading : Heading} {text : Text} {digits : List Text} {rest : Text}
    (h : heading.digits? text = some (digits, rest)) : rest.length ≤ text.length := by
  have ht := Text.dropWhile_length Text.isBlank text
  cases heading <;>
    simp only [digits?, Text.trimStart, Option.bind_eq_bind, Option.bind_eq_some_iff,
      Option.some.injEq, Prod.mk.injEq] at h
  · obtain ⟨number, hn, -, rfl⟩ := h
    have := takeDigits?_length hn
    omega
  · obtain ⟨afterMarker, hm, species, hs, afterScore, hu, second, hf, -, rfl⟩ := h
    have h1 := Text.after?_length hm
    have h2 := takeDigits?_length hs
    have h3 := Text.after?_length hu
    have h4 := takeDigits?_length hf
    omega

theorem entryAt?_length {heading : Heading} {text : Text} {found : List Text × Text × Text}
    (h : entryAt? heading text = some found) : found.2.2.length < text.length := by
  simp only [entryAt?, Option.bind_eq_bind, Option.bind_eq_some_iff, Option.some.injEq] at h
  obtain ⟨afterKey, hk, digits, hd, afterLiteral, hl, rfl⟩ := h
  have h1 := Text.after?_length hk
  have h2 := Heading.digits?_length hd
  have h3 := Text.afterFirst?_length hl
  have h4 := Text.dropWhile_length (· != '\n') afterLiteral
  have h5 : 0 < heading.key.length := by cases heading <;> decide
  simp only
  omega

/-- The digits and the name of every entry, from left to right. -/
def entries (heading : Heading) : Text → List (List Text × Text)
  | [] => []
  | c :: rest =>
    match h : entryAt? heading (c :: rest) with
    | some found =>
      have := entryAt?_length h
      (found.1, found.2.1) :: entries heading found.2.2
    | none => entries heading rest
termination_by text => text.length
decreasing_by all_goals simp_all

/-- The names of the entries; of two entries with one key the later gives the name. -/
def namesOf : Names → List (List Text × Text) → Except OverlongInteger Names
  | names, [] => .ok names
  | names, (digits, name) :: rest => do
    let key ← readKey digits
    namesOf (names.insert key name) rest

def decodeNames (heading : Heading) (text : Text) : Except OverlongInteger Names :=
  namesOf ∅ (entries heading text)

def namesEntry (heading : Heading) (file : Text) (names : Names) : Log.Entry :=
  ⟨.debug, file ++ ": " ++ Text.ofNat names.size ++
    (match heading with
    | .index => " names"
    | .form => " forms")⟩

end Dialogue.Dump
