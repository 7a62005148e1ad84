import Dialogue.Command.Schema
import Dialogue.Message.Render
import Dialogue.Settings.Project
import Dialogue.Trace.Search

/-!
# The workspace

A workspace holds one snapshot of the messages, the script index and the command schema. A refresh
loads all three and then puts them in place at once, so a refresh that fails changes nothing. Every
change of the snapshot has a number, the generation.
-/

namespace Dialogue

/-- What a workspace says while it works: what its parts log, and what its observers hear. -/
inductive Notice
  | logged (entry : Log.Entry)
  | told (entry : Log.Entry)
  | refreshed (generation : Nat)
deriving DecidableEq, Repr

/-- The three data sets that are kept together. -/
structure Snapshot where
  messages : Store := {}
  index : Script.Index := {}
  schema : Schema := {}

/-- A snapshot, how often it was changed, and where it can be loaded from. -/
structure Workspace where
  settings : Option Settings.Project := none
  snapshot : Snapshot := {}
  generation : Nat := 0

/-- What is asked to show a placeholder at a line. -/
def Placeholder.request (origin : Text) (line : Int) (p : Placeholder) : Trace.Request :=
  ⟨origin, line, p.tag, p.group⟩

namespace Workspace

inductive Error
  | noSettings
  | schema (e : Schema.Error)
  | dumps (e : Store.Error)
  | scripts (e : Path.NullCharacter)
  | search (e : FileTree.SearchError)
  | path (e : Settings.PathError)
  | trace (e : Trace.Error)
deriving DecidableEq, Repr

def Error.message : Error → Text
  | .noSettings => "Workspace has no settings to refresh from"
  | .schema e => e.message
  | .dumps e => e.message
  | .scripts e => e.message
  | .search e => e.message
  | .path e => e.message
  | .trace e => e.message

/-- A workspace on given data sets. One that is empty gives way to a new empty one. -/
def ofSnapshot (settings : Option Settings.Project) (snapshot : Snapshot) : Workspace :=
  { settings
    snapshot :=
      { messages := if snapshot.messages.size = 0 then {} else snapshot.messages
        index := if snapshot.index.size = 0 then {} else snapshot.index
        schema := if snapshot.schema.size = 0 then {} else snapshot.schema } }

/-- The workspace with new data sets in the place of those that are given, and what its observers
hear of it. -/
def swap (workspace : Workspace) (messages : Option Store) (index : Option Script.Index)
    (schema : Option Schema) : Workspace × List Notice :=
  let old := workspace.snapshot
  let generation := workspace.generation + 1
  ({ workspace with
      snapshot := ⟨messages.getD old.messages, index.getD old.index, schema.getD old.schema⟩
      generation },
    [.refreshed generation])

def refreshing (project : Settings.Project) : Log.Entry :=
  ⟨.info, "Refreshing workspace: " ++ project.path⟩

def refreshedEntry (snapshot : Snapshot) : Log.Entry :=
  ⟨.info, "Loaded " ++ Text.ofNat snapshot.messages.size ++ " message files, "
    ++ Text.ofNat snapshot.index.size ++ " labels, " ++ Text.ofNat snapshot.schema.size
    ++ " commands"⟩

/-- How much may be open at once while a project is loaded: containers in a definition file, and
folders in the searches for dumps and for scripts. -/
structure Room where
  definitions : Nat
  assets : Nat
  scripts : Nat

/-- Loads the dumps of a project, and what is logged also where that fails. -/
def loadMessages (room : Room) (tree : FileTree) (project : Settings.Project) :
    List Log.Entry × Except Error Store :=
  match Settings.patternIn tree project.assetFolder project.assetPattern with
  | .error e => ([], .error (.path e))
  | .ok pattern =>
    let (log, store) := Store.load room.assets tree project.assetFolder pattern
    (log, store.mapError .dumps)

/-- Indexes the scripts of a project, and what is logged also where that fails. -/
def loadIndex (room : Room) (tree : FileTree) (project : Settings.Project) :
    List Log.Entry × Except Error Script.Index :=
  match Settings.patternIn tree project.scriptFolder project.scriptPattern with
  | .error e => ([], .error (.path e))
  | .ok pattern =>
    match Script.find room.scripts tree project.scriptFolder pattern with
    | (log, .error e) => (log, .error (.search e))
    | (log, .ok paths) =>
      let (more, index) := Script.Index.ofFiles tree paths
      (log ++ more, index.mapError .scripts)

/-- Loads the data sets of a project, and what is logged also where one of them cannot be loaded. -/
def loadSnapshot (room : Room) (tree : FileTree) (project : Settings.Project) :
    List Log.Entry × Except Error Snapshot :=
  match Schema.load room.definitions tree project.schemaFolder with
  | (log, .error e) => (log, .error (.schema e))
  | (log, .ok schema) =>
    match loadMessages room tree project with
    | (more, .error e) => (log ++ more, .error e)
    | (more, .ok messages) =>
      let (last, index) := loadIndex room tree project
      (log ++ more ++ last, index.map fun index => ⟨messages, index, schema⟩)

/-- Loads everything anew and puts it in place. The answer is the new generation. -/
def refresh (room : Room) (tree : FileTree) (workspace : Workspace) :
    Workspace × List Notice × Except Error Nat :=
  match workspace.settings with
  | none => (workspace, [], .error .noSettings)
  | some project =>
    let started : List Notice := [.told (refreshing project)]
    match loadSnapshot room tree project with
    | (log, .error e) => (workspace, started ++ log.map .logged, .error e)
    | (log, .ok snapshot) =>
      let (refreshed, notices) :=
        workspace.swap (some snapshot.messages) (some snapshot.index) (some snapshot.schema)
      (refreshed, started ++ log.map .logged ++ notices ++ [.told (refreshedEntry snapshot)],
        .ok refreshed.generation)

def trace (tree : FileTree) (workspace : Workspace) (request : Trace.Request) :
    Except Trace.Error Trace.Result :=
  Trace.trace tree workspace.snapshot.index workspace.snapshot.schema Trace.defaultLimit request

/-- The tracer of the workspace at a line. -/
def traceAt (tree : FileTree) (workspace : Workspace) (origin : Text) (line : Int)
    (p : Placeholder) : Except Trace.Error Trace.Result :=
  workspace.trace tree (p.request origin line)

/-- The writers of placeholders, told by a tracer that may do more than answer. -/
def resolveBy {m : Type → Type} [Monad m] (ask : Placeholder → m Trace.Result) :
    List Placeholder → m (List (Placeholder × Option Text))
  | [] => pure []
  | p :: rest => do
    let result ← ask p
    let names ← resolveBy ask rest
    pure ((p, result.command?) :: names)

/-- The name that a list of writers gives a placeholder. -/
def nameIn (names : List (Placeholder × Option Text)) (p : Placeholder) : Option Text :=
  ((names.find? fun name => name.1 == p).map (·.2)).join

/-- A message with the writers that a tracer tells; none if there is no such message. -/
def describeBy {m : Type → Type} [Monad m] (ask : Placeholder → m Trace.Result)
    (workspace : Workspace) (file label : Text) (style : Message.FlowStyle) : m (Option Text) :=
  match workspace.snapshot.messages.message? file label with
  | none => pure none
  | some message => do
    let names ← resolveBy ask message.placeholders
    pure (some (message.render style (nameIn names)))

/-- A message as it is shown at a line of a script. -/
def describe (tree : FileTree) (workspace : Workspace) (file label : Text) (origin : Text)
    (line : Int) (style : Message.FlowStyle) : Except Trace.Error (Option Text) :=
  workspace.describeBy (workspace.traceAt tree origin line) file label style

def summary (workspace : Workspace) : List Text :=
  let s := workspace.snapshot
  let skipped := s.messages.failed.length + s.index.failed.length
  let always : List Text :=
    ["Generation: " ++ Text.ofNat workspace.generation,
      "Message files: " ++ Text.ofNat s.messages.size,
      "Labels indexed: " ++ Text.ofNat s.index.size ++ " in " ++ Text.ofNat s.index.files.length
        ++ " scripts",
      "Commands: " ++ Text.ofNat s.schema.size]
  let duplicates : List Text :=
    if s.index.duplicates.isEmpty then []
    else ["Duplicate labels: " ++ Text.join ", " (Text.sort s.index.duplicates.keys)]
  let skips : List Text := if skipped = 0 then [] else ["Skipped files: " ++ Text.ofNat skipped]
  always ++ duplicates ++ skips

end Workspace

end Dialogue
