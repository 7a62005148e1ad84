import Dialogue.CommandLine.Grammar
import Dialogue.Text.Integer
import Dialogue.Trace.Search

/-!
# The actions of the program

The program prints the counts of a project, the messages of a file, the writer of a placeholder, or
the uses of a word. Switches that say where the project is stand in front of the action.
-/

namespace Dialogue.CommandLine

/-- What holds for every action. An empty project path is none. The settings have no name where it
was given as two dashes. -/
structure Options where
  project : Option Text := none
  settings : Option Text := some "settings.json"
  verbose : Bool := false
deriving DecidableEq, Repr

/-- The messages that are asked for: those of a file, or the one of a label. An empty label is
none. -/
structure MessagesQuery where
  file : Text := []
  label : Option Text := none
  raw : Bool := false
deriving DecidableEq, Repr

/-- The placeholder whose writer is asked for, and the line where it is shown. A line or a tag is
missing where it was given as two dashes. -/
structure TraceQuery where
  file : Text := []
  line : Option Int := none
  tag : Option Int := none
  group : Int := defaultGroup
deriving DecidableEq, Repr

inductive Action
  | summary
  | messages (query : MessagesQuery)
  | trace (query : TraceQuery)
  | references (word : Text)
deriving DecidableEq, Repr

structure Arguments where
  options : Options
  action : Action
deriving DecidableEq, Repr

/-- A text, unless it is missing or empty. -/
def filled? (text : Option Text) : Option Text := text.filter fun t => !t.isEmpty

/-- The integer of an argument. One that is too long is none. -/
def integer? (text : Text) : Option Int :=
  match Text.wholeInt? text with
  | .ok n => n
  | .error _ => none

def integerOperand {σ : Type} (required : Bool) (store : Option Int → σ → σ) : Operand σ :=
  { required
    store := fun text value =>
      match text with
      | none => some (store none value)
      | some text => (integer? text).map fun n => store (some n) value }

def helpSwitch {σ : Type} : Switch σ := ⟨["-h", "--help"], .help⟩

def optionSwitches : List (Switch Options) :=
  [helpSwitch,
    ⟨["--project"], .value fun text options => { options with project := filled? text }⟩,
    ⟨["--settings"], .value fun text options => { options with settings := text }⟩,
    ⟨["-v", "--verbose"], .change fun options => { options with verbose := true }⟩]

def summaryGrammar : Grammar Unit := { switches := [helpSwitch] }

def messagesGrammar : Grammar MessagesQuery :=
  { switches := [helpSwitch, ⟨["--raw"], .change fun query => { query with raw := true }⟩]
    operands :=
      [{ store := fun text query => some { query with file := text.getD [] } },
        { required := false
          store := fun text query => some { query with label := filled? text } }] }

/-- The command line of a trace. Its lines are counted from one. -/
def traceGrammar : Grammar TraceQuery :=
  { switches := [helpSwitch]
    operands :=
      [{ store := fun text query => some { query with file := text.getD [] } },
        integerOperand true fun n query => { query with line := n.map (· - 1) },
        integerOperand true fun n query => { query with tag := n },
        integerOperand false fun n query => { query with group := n.getD query.group }] }

def referencesGrammar : Grammar Text :=
  { switches := [helpSwitch]
    operands := [{ store := fun text _ => some (text.getD []) }] }

def actionOf {σ : Type} (grammar : Grammar σ) (start : σ) (action : σ → Action)
    (texts : List Text) : Except Exit (Reading Action) :=
  (grammar.read start texts).map fun reading => ⟨action reading.value, reading.strange⟩

def readAction (name : Text) (texts : List Text) : Except Exit (Reading Action) :=
  if name == "summary" then actionOf summaryGrammar () (fun _ => .summary) texts
  else if name == "messages" then actionOf messagesGrammar {} .messages texts
  else if name == "trace" then actionOf traceGrammar {} .trace texts
  else if name == "refs" then actionOf referencesGrammar [] .references texts
  else .error .misuse

def Arguments.ofTexts (texts : List Text) : Except Exit Arguments :=
  match readSwitches optionSwitches {} texts with
  | .error e => .error e
  | .ok (_, []) => .error .misuse
  | .ok (options, name :: rest) =>
    match readAction name rest with
    | .error e => .error e
    | .ok action =>
      if options.strange || action.strange then .error .misuse
      else .ok ⟨options.value, action.value⟩

end Dialogue.CommandLine
