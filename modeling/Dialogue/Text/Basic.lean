/-!
# Text as a list of code points

Every offset, cut and comparison of this library counts code points, so a text is the list of
its characters.
-/

namespace Dialogue

/-- A text: its code points in order. -/
abbrev Text := List Char

instance : Coe String Text := ⟨String.toList⟩

namespace Text

def newline : Text := ['\n']

/-- What follows `start` in a text that begins with it. -/
def after? : (start text : Text) → Option Text
  | [], text => some text
  | _ :: _, [] => none
  | c :: start, d :: text => if c = d then after? start text else none

theorem after?_eq_some_iff {start text rest : Text} :
    after? start text = some rest ↔ text = start ++ rest := by
  induction start generalizing text with
  | nil => simp [after?]
  | cons c start ih =>
    cases text with
    | nil => simp [after?]
    | cons d text => by_cases h : c = d <;> grind [after?]

theorem after?_length {start text rest : Text} (h : after? start text = some rest) :
    start.length + rest.length = text.length := by
  rw [after?_eq_some_iff.1 h, List.length_append]

theorem dropWhile_length (p : Char → Bool) (text : Text) :
    (text.dropWhile p).length ≤ text.length :=
  (List.dropWhile_suffix p).length_le

/-- What follows the first occurrence of `needle`. -/
def afterFirst? (needle : Text) : Text → Option Text
  | [] => after? needle []
  | c :: rest =>
    match after? needle (c :: rest) with
    | some tail => some tail
    | none => afterFirst? needle rest

theorem afterFirst?_length {needle text rest : Text} (h : afterFirst? needle text = some rest) :
    rest.length ≤ text.length := by
  induction text with
  | nil =>
    have := after?_length h
    omega
  | cons c text ih =>
    unfold afterFirst? at h
    split at h
    · rename_i ht
      have := after?_length ht
      cases h
      omega
    · have := ih h
      simp only [List.length_cons]
      omega

/-- The offset of the first occurrence of `needle`. -/
def find? (needle : Text) : Text → Option Nat
  | [] => if needle.isEmpty then some 0 else none
  | c :: rest =>
    if needle.isPrefixOf (c :: rest) then some 0 else (find? needle rest).map (· + 1)

def occursIn (needle text : Text) : Bool := (find? needle text).isSome

/-- The parts of a list with `separator` between them. -/
def join (separator : Text) : List Text → Text
  | [] => []
  | [part] => part
  | part :: next :: rest => part ++ separator ++ join separator (next :: rest)

/-- One more character at the start of the first part. -/
def consFirst (c : Char) : List Text → List Text
  | [] => [[c]]
  | part :: rest => (c :: part) :: rest

/-- The parts between the occurrences of one character; a text without it is one part. -/
def splitAt (separator : Char) : Text → List Text
  | [] => [[]]
  | c :: rest =>
    if c = separator then [] :: splitAt separator rest else consFirst c (splitAt separator rest)

/-- Text before the other in the order of code points, or equal to it. -/
def le : Text → Text → Bool
  | [], _ => true
  | _ :: _, [] => false
  | c :: rest, d :: other => if c = d then le rest other else decide (c.toNat < d.toNat)

/-- The texts in the order of code points; equal ones keep their places. -/
def sort (texts : List Text) : List Text := texts.mergeSort le

/-- Whether a code point lies in one of the closed ranges. -/
def inRanges (ranges : List (Nat × Nat)) (n : Nat) : Bool :=
  ranges.any fun range => decide (range.1 ≤ n) && decide (n ≤ range.2)

end Text

end Dialogue
