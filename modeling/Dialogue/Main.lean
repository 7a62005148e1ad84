import Dialogue.CommandLine.Output
import Dialogue.FileTree.Folders

/-!
# The program

What a command line needs is read from the disk into a tree of files, and what the run on this tree
prints is printed.
-/

namespace Dialogue.Program

/-- How many folders deep the disk is read. -/
def maxDepth : Nat := 64

/-- How many arrays and objects a settings or definition file may have open at once. -/
def maxNesting : Nat := 1000

def room : CommandLine.Room :=
  { definitions := maxNesting, assets := 2 * maxDepth, scripts := 2 * maxDepth
    settings := maxNesting }

/-- What is printed of the command line's form. -/
def usage : String :=
  "usage: dialogue [-h] [--project PROJECT] [--settings SETTINGS] [-v] ACTION\n\n"
    ++ "actions:\n"
    ++ "  summary                          load everything and print counts\n"
    ++ "  messages FILE [LABEL] [--raw]    print decoded messages of a file\n"
    ++ "  trace SCRIPT LINE TAG [GROUP]    find the writer of a placeholder\n"
    ++ "  refs WORD                        list references to a label or word\n"

/-- The tree with what stands on the disk at a path and, as deep as is said, below it. What cannot
be read is left out. -/
def addBelow : Nat → FileTree → String → IO FileTree
  | 0, tree, _ => pure tree
  | depth + 1, tree, path =>
    try
      let found ← IO.FS.realPath path
      if ← found.isDir then
        let mut tree := (tree.install (path ++ "/") []).1
        for entry in ← found.readDir do
          tree ← addBelow depth tree (path ++ "/" ++ entry.fileName)
        pure tree
      else
        let content ← IO.FS.readBinFile path
        pure (tree.install path content.toList).1
    catch _ => pure tree

/-- The tree with what stands on the disk at some paths. -/
def addPaths (tree : FileTree) (paths : List Text) : IO FileTree :=
  paths.foldlM (fun tree path => addBelow maxDepth tree (String.ofList path)) tree

/-- The folders of a project: its own and those that lie elsewhere. -/
def foldersOf (project : Settings.Project) : List Text :=
  let own := Path.join project.path []
  let others := [project.scriptFolder, project.assetFolder, project.schemaFolder]
  project.path :: others.filter fun folder => !own.isPrefixOf folder

def scriptsOf : CommandLine.Action → List Text
  | .trace query => [query.file]
  | _ => []

/-- The tree of the files that a command line needs: its settings first, then the project that they
name. -/
def readDisk (arguments : CommandLine.Arguments) : IO FileTree := do
  let here : Text := (← IO.currentDir).toString
  let tree := FileTree.ofHome ((Text.splitAt '/' here).filter fun name => !name.isEmpty)
  let settings := arguments.options.settings.toList.map fun name => Settings.filePath tree name none
  let tree ← addPaths tree settings
  let folders := ((arguments.options.load room tree).2.toOption.map foldersOf).getD []
  addPaths tree (folders ++ scriptsOf arguments.action)

/-- Prints the output of a run, and gives its code. -/
def report (output : CommandLine.Output) : IO UInt32 := do
  IO.print (String.ofList output.out)
  IO.eprint (String.ofList output.err)
  match output.code with
  | .ok code => pure code.toUInt32
  | .error e =>
    IO.eprintln (String.ofList e.message)
    pure 1

end Dialogue.Program

open Dialogue

def main (words : List String) : IO UInt32 := do
  match CommandLine.Arguments.ofTexts (words.map String.toList) with
  | .ok arguments =>
    Program.report (CommandLine.run Program.room (← Program.readDisk arguments) arguments)
  | .error .help =>
    IO.print Program.usage
    pure CommandLine.Exit.help.code.toUInt32
  | .error .misuse =>
    IO.eprint Program.usage
    pure CommandLine.Exit.misuse.code.toUInt32
