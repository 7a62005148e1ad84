import Dialogue.Proofs.Blanks
import Dialogue.Proofs.Comments
import Dialogue.Proofs.Lines
import Dialogue.Script.Invocation

/-!
# Where the arguments of a call stand

Each argument of a call is a piece of the line that the call is on (`infix_of_arguments`), so what
holds of all pieces of a line holds of its arguments.
-/

namespace Dialogue.Script

open Text

/-- The parts of an argument list stand in the text, the first one at its start. -/
theorem infix_of_argumentParts : ∀ (inside : Bool) (depth : Nat) (text : Text),
    (∀ part ∈ (argumentParts inside depth text).head?, part <+: text)
      ∧ ∀ part ∈ argumentParts inside depth text, part <:+: text
  | _, _, [] => by simp [argumentParts]
  | inside, depth, c :: rest => by
    have hkeep := fun inside depth => infix_consFirst c (infix_of_argumentParts inside depth rest).1
      (infix_of_argumentParts inside depth rest).2
    unfold argumentParts
    split_ifs
    · exact hkeep (!inside) depth
    · exact hkeep inside depth
    · exact hkeep inside (depth + 1)
    · cases depth with
      | zero => simp
      | succ depth => exact hkeep inside depth
    · have hrest := (infix_of_argumentParts inside depth rest).2
      refine ⟨by simp, List.forall_mem_cons.2 ⟨List.nil_infix, fun part hpart => ?_⟩⟩
      exact (hrest part hpart).trans (List.suffix_cons c rest).isInfix
    · exact hkeep inside depth

theorem infix_of_arguments {text argument : Text} (h : argument ∈ arguments text) :
    argument <:+: text := by
  unfold arguments at h
  simp only [] at h
  split_ifs at h
  · simp at h
  · obtain ⟨part, hpart, rfl⟩ := List.mem_map.1 h
    exact (trim_isInfix part).trans ((infix_of_argumentParts false 0 text).2 part hpart)

/-- The arguments of the calls on a line stand on it, in front of its comment. -/
theorem infix_of_invocations {line argument : Text} {call : Invocation}
    (h : call ∈ invocations (code line)) (ha : argument ∈ call.arguments) :
    argument <:+: line := by
  obtain ⟨o, -, rfl⟩ := List.mem_map.1 h
  exact (infix_of_arguments ha).trans
    ((List.drop_suffix _ _).isInfix.trans (prefix_code line).isInfix)

end Dialogue.Script
