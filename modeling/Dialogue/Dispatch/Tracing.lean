import Dialogue.Dispatch.Schedule
import Dialogue.Trace.Paused

/-!
# Searches as jobs

Each request is a search of its own over the same files. It gives way once after each file that it
reads.
-/

namespace Dialogue.Dispatch

/-- A search that has not begun, or one that is paused. -/
inductive Tracing
  | fresh (query : Trace.Query) (budget : Nat) (arena : Trace.Arena)
  | paused (query : Trace.Query) (search : Trace.Paused)

namespace Tracing

def ofRequest (index : Script.Index) (schema : Schema) (request : Trace.Request) : Tracing :=
  .fresh (.ofRequest index schema request) Trace.defaultLimit.toNat (.start request)

/-- A pause or an end as the progress of a job. -/
def progress (query : Trace.Query) : Trace.Pausing → Progress Tracing Trace.Result
  | .inl search => .yields (.paused query search)
  | .inr (.ok result) => .answers result
  | .inr (.error _) => .fails

def step (content : Trace.Files) (_ : List Int) :
    Tracing → Progress Tracing Trace.Result
  | .fresh query budget arena => progress query (arena.advance query content [] budget)
  | .paused query search => progress query (search.resume query content)

end Tracing

end Dialogue.Dispatch
