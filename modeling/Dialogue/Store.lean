import Dialogue.Dump.Kind
import Dialogue.FileTree.Glob

/-!
# The store of decoded messages

The store holds what all dumps of an asset tree decode to: messages by the keys of their files,
speaker names, and name tables by their categories. A file that cannot be read, or that is no
message table, is logged and skipped.
-/

namespace Dialogue

/-- Everything that was decoded, and the files that were not. -/
structure Store where
  messages : Table Text Dump.Messages := ∅
  speakers : Dump.Messages := ∅
  names : Table Text Dump.Names := ∅
  failed : List Text := []

namespace Store

/-- What ends a load: an integer that is too long, a text that is no path, or the search for the
dumps. -/
inductive Error
  | overlong (e : OverlongInteger)
  | notAPath (e : Path.NullCharacter)
  | search (e : FileTree.SearchError)
deriving DecidableEq, Repr

def Error.message : Error → Text
  | .overlong e => e.message
  | .notAPath e => e.message
  | .search e => e.message

/-- The store with the content of a dump. Speaker names are messages too; the names of one category
are laid over each other. -/
def add (store : Store) (path : Text) (kind : Dump.Kind) : Dump.Content → Store
  | .names found =>
    let category := if kind = .formTable then Dump.formCategory else Dump.category path
    let table := (store.names.get? category).getD ∅
    { store with names := store.names.insert category (table.insertAll found.entries) }
  | .messages found =>
    { store with
      messages := (Dump.aliases path).foldl (fun table key => table.insert key found)
        store.messages
      speakers := if kind = .speakers then store.speakers.insertAll found.entries
        else store.speakers }

def decodeFile (tree : FileTree) (kind : Dump.Kind) (path : Text) :
    Except Dump.Error Dump.Content :=
  match tree.readLines? path with
  | .error e => .error (.notAPath e)
  | .ok none => .error .unreadable
  | .ok (some lines) => kind.decode (Text.unlines lines)

/-- The name of a dump in messages: its last name, or the whole path where that is empty. -/
def shownName (path : Text) : Text :=
  let name := Path.base path
  if name.isEmpty then path else name

def addFile (tree : FileTree) (store : Store) (path : Text) :
    Except Error (Store × List Log.Entry) :=
  match Dump.Kind.ofPath? path with
  | none => .ok (store, [])
  | some kind =>
    match decodeFile tree kind path with
    | .ok content => .ok (store.add path kind content, [])
    | .error (.overlong e) => .error (.overlong e)
    | .error (.notAPath e) => .error (.notAPath e)
    | .error e =>
      .ok ({ store with failed := store.failed ++ [path] },
        [⟨.warning, "Skipping asset: " ++ e.message (shownName path)⟩])

/-- The store with more dumps, and what was logged also where one of them ends the load. -/
def addFiles (tree : FileTree) (store : Store) :
    List Text → List Log.Entry × Except Error Store
  | [] => ([], .ok store)
  | path :: rest =>
    match addFile tree store path with
    | .error e => ([], .error e)
    | .ok (store, log) =>
      let (more, result) := addFiles tree store rest
      (log ++ more, result)

def size (store : Store) : Nat := store.messages.size

def ofFiles (tree : FileTree) (paths : List Text) :
    List Log.Entry × Except Error Store :=
  match addFiles tree {} paths with
  | (log, .error e) => (log, .error e)
  | (log, .ok store) =>
    (log ++ [⟨.info, "Loaded " ++ Text.ofNat store.size ++ " message files ("
      ++ Text.ofNat store.failed.length ++ " skipped)"⟩], .ok store)

def defaultPattern : Text := "**/*.asset"

def load (room : Nat) (tree : FileTree) (folder pattern : Text) :
    List Log.Entry × Except Error Store :=
  if tree.isFolder folder then
    match tree.glob room folder pattern with
    | .error e => ([], .error (.search e))
    | .ok paths => ofFiles tree paths
  else ([⟨.warning, "Asset folder not found: " ++ folder⟩], .ok {})

/-- The keys of message files in the order of code points. -/
def files (store : Store) : List Text := Text.sort store.messages.keys

def contains (store : Store) (file : Text) : Bool := store.messages.contains (Text.lower file)

def labels (store : Store) (file : Text) : Dump.Messages :=
  (store.messages.get? (Text.lower file)).getD ∅

def message? (store : Store) (file label : Text) : Option Message :=
  (store.labels file).get? (Text.lower label)

/-- The name of a speaker, without the flow marks at its end. -/
def speaker? (store : Store) (label : Text) : Option Text :=
  match store.speakers.get? (Text.lower label) with
  | none => none
  | some message =>
    let name := message.withoutTrailingFlow
    if name.isEmpty then none else some name

def name? (store : Store) (category : Text) (key : Dump.NameKey) : Option Text :=
  (store.names.get? category).bind fun table => table.get? key

end Store

end Dialogue
