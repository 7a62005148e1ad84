/-!
# The freshest answer

Requests are numbered as they are made. An answer is published only if no answer to a later request
was published before it, so what is shown never goes back to an older request.
-/

namespace Dialogue.Dispatch

/-- What becomes of an answer. -/
inductive Event (ρ : Type)
  | applied (sequence : Nat) (answer : ρ)
  | discarded (sequence : Nat)
deriving DecidableEq, Repr

/-- The number of the last request, and the last answer that was published with its number. -/
structure Publisher (ρ : Type) where
  sequence : Nat := 0
  applied : Nat := 0
  latest : Option ρ := none

namespace Publisher

variable {ρ : Type}

def request (publisher : Publisher ρ) : Publisher ρ :=
  { publisher with sequence := publisher.sequence + 1 }

/-- The publisher after the answer to a request, and what became of the answer. -/
def complete (publisher : Publisher ρ) (sequence : Nat) (answer : ρ) : Publisher ρ × Event ρ :=
  if sequence ≤ publisher.applied then (publisher, .discarded sequence)
  else ({ publisher with applied := sequence, latest := some answer }, .applied sequence answer)

end Publisher

end Dialogue.Dispatch
