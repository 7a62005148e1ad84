import Dialogue.Text.Basic

/-!
# Name patterns

In a pattern `*` stands for any run of characters, `?` for any one, and a bracket for one of a set
or, after an exclamation mark, for one outside of it. A bracket that is never closed stands for
itself.
-/

namespace Dialogue.Pattern

inductive Element
  | run
  | any
  | oneOf (negated : Bool) (ranges : List (Char × Char))
  | exactly (c : Char)
deriving DecidableEq, Repr

/-- Whether the text holds a character that has a meaning in patterns. -/
def hasMagic (text : Text) : Bool := text.any fun c => c == '*' || c == '?' || c == '['

/-- The ranges of a set; a hyphen makes one where a character stands on both sides. -/
def ranges : Text → List (Char × Char)
  | low :: '-' :: high :: rest => (low, high) :: ranges rest
  | c :: rest => (c, c) :: ranges rest
  | [] => []

/-- A set after its opening bracket: whether it is negated, its characters, and what follows its
closing bracket. A closing bracket in the first place is one of the characters. -/
def takeSet? (text : Text) : Option (Bool × Text × Text) :=
  let negated := text.head? == some '!'
  let body := text.drop (if negated then 1 else 0)
  let first := if body.head? == some ']' then 1 else 0
  match (body.drop first).dropWhile (· != ']') with
  | [] => none
  | _ :: rest =>
    some (negated, body.take first ++ (body.drop first).takeWhile (· != ']'), rest)

theorem takeSet?_length {text : Text} {found : Bool × Text × Text}
    (h : takeSet? text = some found) : found.2.2.length < text.length := by
  unfold takeSet? at h
  simp only [List.drop_drop] at h
  split at h
  · simp at h
  · rename_i tail ht
    have hd := congrArg List.length ht ▸ Text.dropWhile_length (· != ']') (text.drop _)
    simp only [List.length_cons, List.length_drop] at hd
    simp only [Option.some.injEq] at h
    subst h
    simp only
    omega

def elements : Text → List Element
  | [] => []
  | '*' :: rest => .run :: elements rest
  | '?' :: rest => .any :: elements rest
  | '[' :: rest =>
    match h : takeSet? rest with
    | some found =>
      have := takeSet?_length h
      .oneOf found.1 (ranges found.2.1) :: elements found.2.2
    | none => .exactly '[' :: elements rest
  | c :: rest => .exactly c :: elements rest
termination_by text => text.length
decreasing_by all_goals simp_all <;> omega

def Element.accepts (c : Char) : Element → Bool
  | .run => true
  | .any => true
  | .oneOf negated ranges =>
    (ranges.any fun r => decide (r.1.toNat ≤ c.toNat) && decide (c.toNat ≤ r.2.toNat)) != negated
  | .exactly d => c == d

/-- Whether some end of the text, the whole and the empty one included, passes the test. -/
def someSuffix (test : Text → Bool) : Text → Bool
  | [] => test []
  | c :: rest => test (c :: rest) || someSuffix test rest

/-- Whether the elements stand for the whole name. -/
def accepts : List Element → Text → Bool
  | [], name => name.isEmpty
  | .run :: rest, name => someSuffix (accepts rest) name
  | element :: rest, name =>
    match name with
    | [] => false
    | c :: tail => element.accepts c && accepts rest tail

end Dialogue.Pattern
