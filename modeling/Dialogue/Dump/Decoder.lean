import Dialogue.Dump.Draft
import Dialogue.FileTree.Path
import Dialogue.Log
import Dialogue.Text.Lines

/-!
# Reading a message dump

A dump is read line by line in one of four states. The handler of a state changes the draft and
names the next state; it may also hand the line back, to be read once more in the state it named.
A dump of speaker names is only the label list, so there reading starts inside the list.
-/

namespace Dialogue.Dump

/-- Where in a dump a line stands. -/
inductive State
  | outside
  | labels
  | tags
  | words
deriving DecidableEq, Repr

/-- The next state, and whether the line is done with. -/
structure Transition where
  state : State
  consumed : Bool := true
deriving DecidableEq, Repr

/-- What a handler leaves: the draft, also after an error, and the transition. -/
abbrev Step := Draft × Except OverlongInteger Transition

/-- Before the label list all lines but its key are passed over. -/
def outsideLine (draft : Draft) (line : Line) : Step :=
  (draft, .ok ⟨if line.hasKey labelArrayKey then .labels else .outside, true⟩)

/-- In a label a name starts the next label, and the keys of the two lists open them. -/
def labelLine (draft : Draft) (line : Line) : Step :=
  match line.value? labelNameKey with
  | some name =>
    match draft.finish with
    | (draft, .error e) => (draft, .error e)
    | (draft, .ok _) => (draft.startLabel name, .ok ⟨.labels, true⟩)
  | none =>
    if line.hasKey tagArrayKey then (draft, .ok ⟨.tags, true⟩)
    else if line.hasKey wordArrayKey then (draft, .ok ⟨.words, true⟩)
    else (draft, .ok ⟨.labels, true⟩)

/-- A field of a tag item. Numbers that are negative or missing are not taken. -/
def tagField (draft : Draft) (line : Line) : Step :=
  match line.value? tagIndexKey with
  | some value =>
    match Text.leadingInt? value with
    | .error e => (draft, .error e)
    | .ok (some (.ofNat id)) => ({ draft with pendingTag := some id }, .ok ⟨.tags, true⟩)
    | .ok _ => (draft, .ok ⟨.tags, true⟩)
  | none =>
    match line.value? groupKey with
    | some value =>
      match Text.leadingInt? value with
      | .error e => (draft, .error e)
      | .ok (some group) => ({ draft with pendingGroup := group }, .ok ⟨.tags, true⟩)
      | .ok none => (draft, .ok ⟨.tags, true⟩)
    | none => (draft, .ok ⟨.tags, true⟩)

/-- In the tag list an item ends where the next one opens or where the words begin. -/
def tagLine (draft : Draft) (line : Line) : Step :=
  if line.hasKey wordArrayKey then (draft.flushTag, .ok ⟨.words, true⟩)
  else if line.hasKey labelNameKey then (draft, .ok ⟨.labels, false⟩)
  else tagField (if line.opensItem then draft.flushTag else draft) line

def wordField (draft : Draft) (line : Line) : Step :=
  match line.value? literalKey with
  | some value =>
    ({ draft with word.literal := some (unquote value) }, .ok ⟨.words, true⟩)
  | none =>
    match line.value? eventKey with
    | some value =>
      match Text.leadingInt? value with
      | .error e => (draft, .error e)
      | .ok (some event) => ({ draft with word.event := some event }, .ok ⟨.words, true⟩)
      | .ok none => (draft, .ok ⟨.words, true⟩)
    | none =>
      match line.value? tagIndexKey with
      | some value =>
        match Text.leadingInt? value with
        | .error e => (draft, .error e)
        | .ok (some (.ofNat index)) =>
          ({ draft with word.tagIndex := some index }, .ok ⟨.words, true⟩)
        | .ok _ => (draft, .ok ⟨.words, true⟩)
      | none => (draft, .ok ⟨.words, true⟩)

/-- In the word list a word ends where the next one opens, and the list where the next label or
its tag list begins. -/
def wordLine (draft : Draft) (line : Line) : Step :=
  if line.hasKey labelNameKey || line.hasKey tagArrayKey then (draft, .ok ⟨.labels, false⟩)
  else wordField (if line.opensItem then draft.commitWord else draft) line

def State.handle : State → Draft → Line → Step
  | .outside => outsideLine
  | .labels => labelLine
  | .tags => tagLine
  | .words => wordLine

/-- How often a line is read at most. -/
def maxReadings : Nat := 3

/-- Reads a line until a handler is done with it, or as often as is given. -/
def readLine : Nat → State → Draft → Line → Draft × Except OverlongInteger State
  | 0, state, draft, _ => (draft, .ok state)
  | readings + 1, state, draft, line =>
    match state.handle draft line with
    | (draft, .error e) => (draft, .error e)
    | (draft, .ok next) =>
      if next.consumed then (draft, .ok next.state) else readLine readings next.state draft line

def readLines : State → Draft → List Line → Except OverlongInteger Messages
  | _, draft, [] =>
    match draft.finish with
    | (_, .error e) => .error e
    | (draft, .ok _) => .ok draft.messages
  | state, draft, line :: rest =>
    match readLine maxReadings state draft line with
    | (_, .error e) => .error e
    | (draft, .ok state) => readLines state draft rest

inductive Error
  | noLabelArray
  | unreadable
  | overlong (e : OverlongInteger)
  | notAPath (e : Path.NullCharacter)
deriving DecidableEq, Repr

def Error.message (file : Text) : Error → Text
  | .noLabelArray => file ++ ": no labelDataArray: marker"
  | .unreadable => file ++ ": unreadable"
  | .overlong e => e.message
  | .notAPath e => e.message

/-- Whether a dump is a whole message table, or only the label list of one. -/
inductive Layout
  | table
  | labelList
deriving DecidableEq, Repr

def Layout.start : Layout → State
  | .table => .outside
  | .labelList => .labels

/-- The messages of a dump. A whole table must name its label list somewhere. -/
def decode (layout : Layout) (text : Text) : Except Error Messages :=
  if layout = .table ∧ !Text.occursIn labelArrayKey text then .error .noLabelArray
  else (readLines layout.start {} ((Text.lines text).map Line.ofText)).mapError .overlong

def decodedEntry (file : Text) (messages : Messages) : Log.Entry :=
  ⟨.debug, file ++ ": decoded " ++ Text.ofNat messages.size ++ " labels"⟩

end Dialogue.Dump
