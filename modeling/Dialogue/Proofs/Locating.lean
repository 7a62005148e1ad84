import Dialogue.FileTree.Basic
import Mathlib.Tactic.SplitIfs

/-!
# Where paths lead

A path that leads somewhere is walked there name by name (`locate_eq_ok_iff`). A tree refuses a path
for what stands at its places; a text with a null character is no path, whatever the tree is
(`locate_eq_notAPath_iff`), and this passes through all that is read at it. So of a text without one
the lines of a file are read or there are none, and no failure is left (`exists_readLines?_iff`).
-/

namespace Dialogue.FileTree

variable (tree : FileTree) (e : Path.NullCharacter) {path : Text} {lines : List Text} {goal : Place}

/-- Where the names of a path start. -/
def root (path : Text) : Place := if Path.isAbsolute path then [] else tree.home

theorem locate_eq_notAPath_iff :
    tree.locate path = .error (.notAPath e) ↔ Path.holdsNull path = true := by
  unfold locate
  by_cases h : Path.holdsNull path = true
  · simp [h]
  rw [if_neg h, iff_false_right h]
  generalize tree.walk _ _ = walked
  split_ifs
  · simp
  · simp
  · cases walked <;> simp [Except.mapError]

theorem status_eq_notAPath_iff :
    tree.status path = .error (.notAPath e) ↔ Path.holdsNull path = true := by
  rw [← tree.locate_eq_notAPath_iff e, status]
  rcases tree.locate path with fault | place
  · simp
  · rcases h : tree.entryAt? place with _ | entry <;> simp [h]

theorem readLines_eq_notAPath_iff :
    tree.readLines path = .error (.notAPath e) ↔ Path.holdsNull path = true := by
  rw [← tree.status_eq_notAPath_iff e, readLines, readText, readBytes]
  rcases tree.status path with fault | _ | content <;> simp [Except.map]

theorem readLines?_eq_error_iff :
    tree.readLines? path = .error e ↔ Path.holdsNull path = true := by
  rw [← tree.readLines_eq_notAPath_iff e, readLines?]
  rcases tree.readLines path with (cause | e') | found <;> simp

theorem contains_of_holdsNull (h : Path.holdsNull path = true) : tree.contains path = false := by
  rw [contains, (tree.status_eq_notAPath_iff {}).2 h]
  rfl

theorem exists_readLines?_iff :
    (∃ found, tree.readLines? path = .ok found) ↔ Path.holdsNull path = false := by
  rw [← Bool.not_eq_true, ← tree.readLines?_eq_error_iff {}]
  rcases tree.readLines? path with e | found <;> simp

variable {tree}

theorem locate_eq_ok_iff :
    tree.locate path = .ok goal ↔ path ≠ [] ∧ '\x00' ∉ path ∧ isLongerThan maxPath path = false
      ∧ tree.walk (tree.root path) (Text.splitAt '/' path) = .ok goal := by
  unfold locate root
  by_cases hnull : '\x00' ∈ path
  · simp [Path.holdsNull, hnull]
  by_cases hnil : path = []
  · simp [hnil, Path.holdsNull]
  by_cases hlong : isLongerThan maxPath path = true
  · simp [Path.holdsNull, hnull, hnil, hlong]
  · generalize tree.walk _ _ = walked
    cases walked <;> simp [Path.holdsNull, hnull, hnil, hlong, Except.mapError]

theorem readLines?_eq_some_iff :
    tree.readLines? path = .ok (some lines) ↔ tree.readLines path = .ok lines := by
  unfold readLines?
  rcases tree.readLines path with (cause | e) | found <;> simp

end Dialogue.FileTree
