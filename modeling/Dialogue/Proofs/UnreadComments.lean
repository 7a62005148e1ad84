import Dialogue.Proofs.Comments
import Dialogue.Script.Usage
import Dialogue.Trace.Search

/-!
# Comments are not read

Labels, references and writers are looked for on the code of a line, which has no comment to lose.
So a line says the same as its code (`reads_up_to_comment`), and neither an index nor a search knows
whether files have been stripped of their comments (`Index.addLines_map_code`,
`Arena.run_map_code`).
-/

namespace Dialogue

namespace Script

section Line

variable (line : Text)

@[simp] theorem label?_code : label? (code line) = label? line := by
  rw [label?, label?, code_code]

@[simp] theorem references_code : references (code line) = references line := by
  rw [references, references, code_code]

@[simp] theorem usage_code (word : Text) : usage (code line) word = usage line word := by
  simp only [usage, label?_code, references_code]

end Line

namespace Index

@[simp] theorem addLine_code (index : Index) (file : Text) (n : Nat) (line : Text) :
    index.addLine file n (code line) = index.addLine file n line := by
  simp only [addLine, label?_code, references_code]

theorem addLinesFrom_map_code (file : Text) : ∀ (lines : List Text) (index : Index) (n : Nat),
    index.addLinesFrom file n (lines.map code) = index.addLinesFrom file n lines
  | [], _, _ => rfl
  | line :: rest, index, n => by
    have ih := addLinesFrom_map_code file rest
    simp only [List.map_cons, addLinesFrom, addLine_code, ih]

/-- A file is indexed alike with its comments and without. -/
theorem addLines_map_code (index : Index) (file : Text) (lines : List Text) :
    index.addLines file (lines.map code) = index.addLines file lines :=
  addLinesFrom_map_code file lines _ 0

end Index

end Script

namespace Trace

open Script

@[simp] theorem writer?_code (schema : Schema) (tag : Int) (slot : Slot) (line : Text) :
    writer? schema tag slot (code line) = writer? schema tag slot line := by
  rw [writer?, writer?, code_code]

theorem linesAbove_map (f : Text → Text) (lines : List Text) (line : Int) :
    linesAbove (lines.map f) line = (linesAbove lines line).map (Prod.map f id) := by
  rw [linesAbove, linesAbove, ← List.map_take, List.zipIdx_map, List.map_reverse]

theorem Query.scan_map_code (query : Query) : ∀ lines : List (Text × Nat),
    query.scan (lines.map (Prod.map code id)) = query.scan lines
  | [] => rfl
  | (text, line) :: rest => by
    have ih := query.scan_map_code rest
    simp only [List.map_cons, Prod.map_apply, id, Query.scan, writer?_code, label?_code, ih]

theorem Arena.visit_map_code (query : Query) (arena : Arena) (place : Nat) (node : Node)
    (lines : List Text) :
    arena.visit query place node (lines.map code) = arena.visit query place node lines := by
  rw [visit, visit, linesAbove_map, query.scan_map_code]

/-- Files without their comments. -/
def Files.code (content : Files) : Files :=
  fun path => (content path).map (Option.map (List.map Script.code))

/-- A search takes the same way and ends alike with the comments of the files and without. -/
theorem Arena.run_map_code (query : Query) (content : Files) :
    ∀ (budget : Nat) (arena : Arena),
      arena.run query content.code budget = arena.run query content budget
  | 0, _ => rfl
  | budget + 1, arena => by
    have ih := run_map_code query content budget
    rcases hnext : arena.next? with _ | node
    · simp only [run, hnext]
    rcases hlines : content node.file with e | _ | lines
    · simp only [run, hnext, Files.code, hlines, Except.map]
    · simp only [run, hnext, Files.code, hlines, Except.map, Option.map_none, ← ih]
    · simp only [run, hnext, Files.code, hlines, Except.map, Option.map_some, visit_map_code, ← ih]

end Trace

namespace Script

/-- A line is cut in front of its first two slashes outside of literals and nowhere else. On what is
left two slashes stand in literals only; if anything has been cut off, it begins with two slashes,
and the quotes in front of it are even in number. So nothing more is cut off the second time, and
what is left declares, names and writes what the line does. -/
theorem reads_up_to_comment (line : Text) :
    (∀ text, code line = text ↔ UpToComment false line text)
      ∧ code line <+: line
      ∧ (∀ p, commentMarker <+: (code line).drop p → opensLiteral ((code line).take p) = true)
      ∧ ((code line).length < line.length →
          commentMarker <+: line.drop (code line).length ∧ (code line).count quote % 2 = 0)
      ∧ code (code line) = code line
      ∧ label? (code line) = label? line
      ∧ references (code line) = references line
      ∧ (∀ word, usage (code line) word = usage line word)
      ∧ ∀ schema tag slot,
          Trace.writer? schema tag slot (code line) = Trace.writer? schema tag slot line := by
  have hcut : (code line).length < line.length →
      commentMarker <+: line.drop (code line).length ∧ (code line).count quote % 2 = 0 := by
    intro hlt
    refine ⟨((upToComment_code line).cut hlt).1, ?_⟩
    simpa [opensLiteral] using opensLiteral_of_cut hlt
  exact ⟨fun _ => code_eq_iff, prefix_code line,
    fun p => not_commentAt_iff.1 (not_commentAt_code line p), hcut, code_code line,
    label?_code line, references_code line, usage_code line,
    fun schema tag slot => Trace.writer?_code schema tag slot line⟩

end Script

end Dialogue
