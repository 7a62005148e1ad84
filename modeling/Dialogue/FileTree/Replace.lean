import Dialogue.FileTree.Basic
import Dialogue.Log

/-!
# Replacing a file as a whole

The new content goes to a temporary file beside the target, which takes the target's place only
when all of it is written. Whatever fails before leaves the target as it was.
-/

namespace Dialogue.FileTree

inductive ReplaceError
  | fault (fault : Fault)
  | interrupted (reason : Text)
deriving DecidableEq, Repr

/-- What is left of a replacement. -/
structure Replacement where
  tree : FileTree
  log : List Log.Entry
  result : Except ReplaceError Unit

def temporaryPath (path : Text) : Text :=
  Path.join (Path.parent path) ('.' :: (Path.base path ++ ".tmp"))

/-- Takes the temporary file away after a failure and logs what happened. -/
def abandon (tree : FileTree) (path detail : Text) (error : ReplaceError) : Replacement :=
  let temporary := temporaryPath path
  let failed : Log.Entry := ⟨.error, "Failed to write " ++ path ++ ": " ++ detail⟩
  if tree.contains temporary then
    match tree.remove temporary with
    | .ok cleaned => ⟨cleaned, [failed], .error error⟩
    | .error fault =>
      ⟨tree, [failed, ⟨.warning, "Failed to remove temp file " ++ temporary ++ ": "
        ++ fault.about temporary⟩], .error error⟩
  else ⟨tree, [failed], .error error⟩

/-- Replaces the file at a path by the parts one after the other. With a reason given an error
interrupts the writing after the last part. What stops a program without being an error, such as a
break from the keyboard or a task that is cancelled, is none of these failures: it is neither logged
nor tidied up after, so the target is as it was but the temporary file stays. -/
def replace (tree : FileTree) (path : Text) (parts : List Text) (reason : Option Text) :
    Replacement :=
  let temporary := temporaryPath path
  match tree.write temporary (Utf8.encode parts.flatten) with
  | .error fault => abandon tree path (fault.about temporary) (.fault fault)
  | .ok written =>
    match reason with
    | some reason => abandon written path reason (.interrupted reason)
    | none =>
      match written.move temporary path with
      | .error fault => abandon written path (fault.aboutMove temporary path) (.fault fault)
      | .ok moved => ⟨moved, [], .ok ()⟩

end Dialogue.FileTree
