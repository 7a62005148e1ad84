import Dialogue.Text.Basic

/-!
# Quoted literals and comments

A single quote opens a literal and the next one closes it; one that is never closed runs to the
end of the line. Two slashes outside a literal begin a comment.
-/

namespace Dialogue.Script

def quote : Char := '\x27'

def commentMarker : Text := "//"

/-- The line up to its comment, read from inside a literal or outside. -/
def codeFrom (inside : Bool) : Text → Text
  | [] => []
  | c :: rest =>
    if c = quote then c :: codeFrom (!inside) rest
    else if !inside && commentMarker.isPrefixOf (c :: rest) then []
    else c :: codeFrom inside rest

/-- The line up to its comment. -/
def code (line : Text) : Text := codeFrom false line

/-- Whether what follows the text stands inside a literal. -/
def opensLiteral (text : Text) : Bool := text.count quote % 2 == 1

theorem opensLiteral_cons (c : Char) (text : Text) :
    opensLiteral (c :: text) = if c = quote then !opensLiteral text else opensLiteral text := by
  unfold opensLiteral
  split
  · rename_i hquote
    rw [hquote, List.count_cons_self]
    rcases Nat.mod_two_eq_zero_or_one (text.count quote) with h | h <;>
      simp [h, Nat.add_mod]
  · rename_i hquote
    rw [List.count_cons_of_ne hquote]

end Dialogue.Script
