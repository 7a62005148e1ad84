import Dialogue.Trace.Paused

/-!
# A search with its pauses

A search that pauses comes to what it comes to without a pause (`finish_advance`, `finish_resume`),
and it pauses with fewer places left each time.
-/

namespace Dialogue.Trace

variable {query : Query} {content : Files}

/-- What a search that pauses comes to when nothing else happens. -/
def Paused.finish (query : Query) (content : Files) (paused : Paused) :
    Except Error Result :=
  match paused.arena.visit query paused.place paused.node paused.lines with
  | .error e => .error e
  | .ok (.inl next) => next.run query content paused.budget
  | .ok (.inr result) => .ok result

def Pausing.finish (query : Query) (content : Files) :
    Pausing → Except Error Result
  | .inl paused => paused.finish query content
  | .inr result => result

theorem finish_advance : ∀ (budget : Nat) (known : List Text) (arena : Arena),
    Pausing.finish query content (arena.advance query content known budget)
      = arena.run query content budget
  | 0, _, _ => rfl
  | budget + 1, known, arena => by
    simp only [Arena.advance, Arena.run]
    rcases arena.next? with _ | node
    · rfl
    simp only []
    rcases content node.file with e | _ | lines
    · rfl
    · exact finish_advance budget known _
    by_cases hknown : known.contains node.file
    · simp only [hknown, if_true]
      rcases arena.take.visit query arena.steps node lines with e | next | result
      · rfl
      · exact finish_advance budget known next
      · rfl
    · simp only [hknown]
      rfl

theorem finish_resume (paused : Paused) :
    Pausing.finish query content (paused.resume query content) = paused.finish query content := by
  unfold Paused.resume Paused.finish
  rcases paused.arena.visit query paused.place paused.node paused.lines with e | next | result
  · rfl
  · exact finish_advance paused.budget paused.known next
  · rfl

/-- A search pauses with a place less to take. -/
theorem budget_lt_of_advance : ∀ {budget : Nat} {known : List Text} {arena : Arena}
    {paused : Paused}, arena.advance query content known budget = .inl paused →
      paused.budget < budget
  | 0, _, _, _, h => by cases h
  | budget + 1, known, arena, paused, h => by
    rw [Arena.advance] at h
    split at h
    · cases h
    split at h
    · cases h
    · exact Nat.lt_succ_of_lt (budget_lt_of_advance h)
    split at h
    · split at h
      · cases h
      · exact Nat.lt_succ_of_lt (budget_lt_of_advance h)
      · cases h
    · cases h
      exact Nat.lt_succ_self budget

theorem budget_lt_of_resume {paused next : Paused}
    (h : paused.resume query content = .inl next) : next.budget < paused.budget := by
  unfold Paused.resume at h
  split at h
  · cases h
  · exact budget_lt_of_advance h
  · cases h

end Dialogue.Trace
