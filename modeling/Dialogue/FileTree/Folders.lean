import Dialogue.FileTree.Basic

/-!
# Making a folder with the folders above it

A folder that stands there already is as good as a new one. The folders that were made stay also
where a later one cannot be made.
-/

namespace Dialogue.FileTree

/-- The tree with one more folder, unless one stands there. -/
def ensureFolder (tree : FileTree) (path : Text) : FileTree × Except Fault Unit :=
  match tree.makeFolder path with
  | .ok made => (made, .ok ())
  | .error fault => (tree, if tree.isFolder path then .ok () else .error fault)

/-- The tree with a folder at the path and, where they are missing, as many of the folders above
it as are given. -/
def makeFoldersUpTo : Nat → FileTree → Text → FileTree × Except Fault Unit
  | 0, tree, path => tree.ensureFolder path
  | depth + 1, tree, path =>
    let (above, name) :=
      if (Path.base path).isEmpty then
        (Path.parent (Path.parent path), Path.base (Path.parent path))
      else (Path.parent path, Path.base path)
    if above.isEmpty || name.isEmpty || tree.contains above then tree.ensureFolder path
    else
      match makeFoldersUpTo depth tree above with
      | (tree, .error fault) => (tree, .error fault)
      | (tree, .ok ()) => if name == ['.'] then (tree, .ok ()) else tree.ensureFolder path

def makeFolders (tree : FileTree) (path : Text) : FileTree × Except Fault Unit :=
  makeFoldersUpTo path.length tree path

/-- The tree with a file and the folders above it. A path that ends with a slash is a folder's. -/
def install (tree : FileTree) (path : Text) (content : Bytes) : FileTree × Except Fault Unit :=
  let folder := Path.parent path
  match if folder.isEmpty then (tree, .ok ()) else tree.makeFolders folder with
  | (tree, .error fault) => (tree, .error fault)
  | (tree, .ok ()) =>
    if endsInSlash path then (tree, .ok ())
    else
      match tree.write path content with
      | .ok written => (written, .ok ())
      | .error fault => (tree, .error fault)

end Dialogue.FileTree
