import Dialogue.CommandLine.Action
import Dialogue.Log.Console
import Dialogue.Script.Report
import Dialogue.Workspace.Basic

/-!
# What the program prints

The program reads the settings, loads the project, and carries out the action. The log of all this
comes first on the output; what was not found is said on the error output and by the code.
-/

namespace Dialogue.CommandLine

/-- What an action prints line by line, and the code that it ends with. -/
structure Answer where
  out : List Text := []
  err : List Text := []
  code : Nat := 0
deriving DecidableEq, Repr

inductive Failure
  | settings (e : Settings.LoadError)
  | path (e : Settings.PathError)
  | workspace (e : Workspace.Error)
  | noLine
  | notAPath (e : Path.NullCharacter)
deriving DecidableEq, Repr

def Failure.message : Failure → Text
  | .settings e => e.message
  | .path e => e.message
  | .workspace e => e.message
  | .noLine => "unsupported operand type(s) for -: 'list' and 'int'"
  | .notAPath e => e.message

/-- What a run prints, and the code that it ends with unless something goes wrong. -/
structure Output where
  out : Text := []
  err : Text := []
  code : Except Failure Nat

def printed (lines : List Text) : Text := lines.flatMap (· ++ Text.newline)

def Answer.missing (text : Text) : Answer := { err := [text], code := 1 }

def messageLine (raw : Bool) (label : Text) (message : Message) : Text :=
  label ++ ": " ++ message.render (if raw then .tokens else .breaks) fun _ => none

/-- The messages of a file, or the one of a label, which is not told apart by its case. -/
def messagesAnswer (store : Store) (query : MessagesQuery) : Answer :=
  let found := store.labels query.file
  if found.isEmpty then .missing ("No messages for " ++ query.file)
  else
    match query.label.map Text.lower with
    | none =>
      { out := (Text.sort found.keys).filterMap fun label =>
          (found.get? label).map (messageLine query.raw label) }
    | some label =>
      match found.get? label with
      | none => .missing ("No label " ++ label ++ " in " ++ query.file)
      | some message => { out := [messageLine query.raw label message] }

def wayLine (path : List Text) : Text :=
  if path.isEmpty then "same block" else Text.join " <- " path

/-- The text of a tag; a tag that is missing is an empty pair of brackets. -/
def tagText (tag : Option Int) : Text := (tag.map Text.ofInt).getD "[]"

/-- A tag that no command writes: no argument that is read has so many digits. -/
def unwrittenTag : Int := (Nat.pow 10 Text.maxDigits : Nat)

/-- The writer of a placeholder, or how the search ended without one. -/
def traceAnswer (tag : Option Int) (result : Trace.Result) : Answer :=
  match result.outcome.finding? with
  | some finding =>
    { out := [finding.command ++ " at " ++ finding.file ++ ":" ++ Text.ofNat (finding.line + 1)
        ++ " via " ++ wayLine finding.path] }
  | none =>
    { out := ["[" ++ tagText tag ++ "] unresolved (" ++ result.outcome.word ++ ", "
        ++ Text.ofNat result.steps ++ " steps)"]
      code := 1 }

def traceFor (tree : FileTree) (workspace : Workspace) (query : TraceQuery) :
    Except Failure Answer :=
  match query.line with
  | none => .error .noLine
  | some line =>
    let request := ⟨query.file, line, query.tag.getD unwrittenTag, query.group⟩
    ((workspace.trace tree request).map (traceAnswer query.tag)).mapError
      fun e => .workspace (.trace e)

/-- The text with blanks behind it up to a width. -/
def padded (width : Nat) (text : Text) : Text :=
  text ++ List.replicate (width - text.length) ' '

def mentionLine (mention : Script.Mention) : Text :=
  padded 10 mention.usage.word ++ " " ++ mention.file ++ ":" ++ Text.ofNat (mention.line + 1)
    ++ ": " ++ mention.text

/-- The lines that mention a word, usage by usage. -/
def referencesAnswer (found : List Script.Mention) : Answer :=
  if found.isEmpty then { out := ["No references found"] }
  else
    { out := (Script.Usage.all.flatMap fun usage => Script.ofUsage usage found).map mentionLine }

/-- The answer of an action in a workspace, and what is logged on the way. -/
def Action.answer (tree : FileTree) (workspace : Workspace) :
    Action → List Log.Entry × Except Failure Answer
  | .summary => ([], .ok { out := workspace.summary })
  | .messages query => ([], .ok (messagesAnswer workspace.snapshot.messages query))
  | .trace query => ([], traceFor tree workspace query)
  | .references word =>
    let (log, found) := Script.report tree word workspace.snapshot.index.files
    (log, (found.map referencesAnswer).mapError .notAPath)

/-- The fields of the settings with the project that the command line names. -/
def withProject (project : Option Text) (fields : Settings.Fields) : Settings.Fields :=
  match project with
  | none => fields
  | some path => (Table.mk fields).insert "project_path" (.string path) |>.entries

/-- How much may be open at once in a run: what a project takes, and containers in its settings. -/
structure Room extends Workspace.Room where
  settings : Nat

/-- The project of a command line, and what is logged while its settings are read. -/
def Options.load (room : Room) (tree : FileTree) (options : Options) :
    List Log.Entry × Except Failure Settings.Project :=
  match options.settings with
  | none => ([], .error (.path (.notAPath (Json.kindWord (.array [])))))
  | some name =>
    match Settings.load room.settings tree (Settings.filePath tree name none) with
    | (log, .error e) => (log, .error (.settings e))
    | (log, .ok fields) =>
      let project := Settings.Project.ofFields tree (withProject options.project fields)
      (log, project.mapError .path)

def heard? : Notice → Option Log.Entry
  | .logged entry => some entry
  | .told entry => some entry
  | .refreshed _ => none

def Options.logger (options : Options) : Log.Logger :=
  Log.Logger.setUp {} (if options.verbose then Log.Level.debug else Log.Level.info).rank

/-- Carries out a command line on a tree of files: what is logged, and the answer. -/
def answer (room : Room) (tree : FileTree) (arguments : Arguments) :
    List Log.Entry × Except Failure Answer :=
  match arguments.options.load room tree with
  | (log, .error e) => (log, .error e)
  | (log, .ok project) =>
    let (workspace, notices, refreshed) :=
      (Workspace.ofSnapshot (some project) {}).refresh room.toRoom tree
    let log := log ++ notices.filterMap heard?
    match refreshed with
    | .error e => (log, .error (.workspace e))
    | .ok _ =>
      let (more, answer) := arguments.action.answer tree workspace
      (log ++ more, answer)

def run (room : Room) (tree : FileTree) (arguments : Arguments) : Output :=
  let (log, answer) := answer room tree arguments
  let out := printed (log.flatMap arguments.options.logger.print)
  match answer with
  | .error e => { out, code := .error e }
  | .ok answer =>
    { out := out ++ printed answer.out
      err := printed answer.err
      code := .ok answer.code }

end Dialogue.CommandLine
