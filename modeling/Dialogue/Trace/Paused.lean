import Dialogue.Trace.Search

/-!
# A search that pauses

Between two files a search can wait while others run. It pauses once after each file that it reads
for the first time, with the lines in hand, and goes on from there.
-/

namespace Dialogue.Trace

/-- A search that has read the file of its last place and not yet looked at it. -/
structure Paused where
  arena : Arena
  place : Nat
  node : Node
  lines : List Text
  /-- The places that it may still take. -/
  budget : Nat
  /-- The files that were read. -/
  known : List Text

/-- A search that pauses, or its end. -/
abbrev Pausing := Paused ⊕ Except Error Result

def Arena.advance (query : Query) (content : Files) (known : List Text) : Nat → Arena → Pausing
  | 0, arena => .inr (.ok arena.stop)
  | budget + 1, arena =>
    match arena.next? with
    | none => .inr (.ok arena.stop)
    | some node =>
      match content node.file with
      | .error e => .inr (.error (.notAPath e))
      | .ok none => advance query content known budget (arena.take.miss node.file)
      | .ok (some lines) =>
        if known.contains node.file then
          match arena.take.visit query arena.steps node lines with
          | .error e => .inr (.error e)
          | .ok (.inl next) => advance query content known budget next
          | .ok (.inr result) => .inr (.ok result)
        else .inl ⟨arena.take, arena.steps, node, lines, budget, node.file :: known⟩

def Paused.resume (query : Query) (content : Files) (paused : Paused) : Pausing :=
  match paused.arena.visit query paused.place paused.node paused.lines with
  | .error e => .inr (.error e)
  | .ok (.inl next) => next.advance query content paused.known paused.budget
  | .ok (.inr result) => .inr (.ok result)

end Dialogue.Trace
