import Dialogue.CommandLine.Word

/-!
# Reading a command line

A command line is read from left to right: each switch changes what was read so far, and the
arguments between two switches go to the operands in their order. An operand that may be missing is
passed over when the one in front of it has its argument and no other argument follows at once. What
nobody knows is a misuse, but only when everything was read, since help may be asked for behind it.
-/

namespace Dialogue.CommandLine

variable {σ : Type}

/-- A switch with its value, if its word holds one. -/
structure Use (σ : Type) where
  switch : Switch σ
  value : Option Text := none

/-- What was read so far, and whether something in it was not known. -/
structure Reading (σ : Type) where
  value : σ
  strange : Bool := false

/-- An operand: an argument that is known by its place. Its text is missing where only two dashes
were given for it. An argument may be refused. -/
structure Operand (σ : Type) where
  required : Bool := true
  store : Option Text → σ → Option σ

/-- The switches and the operands of a command line. -/
structure Grammar (σ : Type) where
  switches : List (Switch σ)
  operands : List (Operand σ) := []

/-- The switches of a word of short names. The rest of the word is the value of the first switch
that takes one. -/
def joinedUses (switches : List (Switch σ)) (switch : Switch σ) :
    Text → Except Exit (List (Use σ))
  | [] =>
    match switch.effect with
    | .value _ => .ok [⟨switch, some []⟩]
    | _ => .error .misuse
  | c :: rest =>
    match switch.effect with
    | .value _ => .ok [⟨switch, some (c :: rest)⟩]
    | _ =>
      match switchNamed? switches ['-', c], rest with
      | none, _ => .error .misuse
      | some next, [] => .ok [⟨switch, none⟩, ⟨next, none⟩]
      | some next, rest => (joinedUses switches next rest).map (⟨switch, none⟩ :: ·)

def usesOf (switches : List (Switch σ)) (switch : Switch σ) : Tail → Except Exit (List (Use σ))
  | .nothing => .ok [⟨switch, none⟩]
  | .joined rest => joinedUses switches switch rest
  | .assigned value =>
    match switch.effect with
    | .value _ => .ok [⟨switch, some value⟩]
    | _ => .error .misuse

/-- The switches with the value of the last one taken from the words that follow, where it has none
yet. -/
def fillUses : List (Use σ) → List (Word σ) → Except Exit (List (Use σ) × List (Word σ))
  | [], run => .ok ([], run)
  | use :: rest, run =>
    match use.switch.effect, use.value, run with
    | .value _, none, .argument text :: run =>
      (fillUses rest run).map fun filled => ({ use with value := some text } :: filled.1, filled.2)
    | .value _, none, _ => .error .misuse
    | _, _, run => (fillUses rest run).map fun filled => (use :: filled.1, filled.2)

/-- A text that is kept; two dashes alone are dropped. -/
def kept? (text : Text) : Option Text := if text == dashes then none else some text

def Use.apply (use : Use σ) (value : σ) : Except Exit σ :=
  match use.switch.effect with
  | .change f => .ok (f value)
  | .value f => .ok (f (use.value.bind kept?) value)
  | .help => .error .help

/-- The reading after a switch, and the words behind it that are not the switch's value. -/
def Word.read (switches : List (Switch σ)) (word : Word σ) (run : List (Word σ))
    (reading : Reading σ) : Except Exit (Reading σ × List (Word σ)) :=
  match word with
  | .switch _ found tail => do
    let uses ← usesOf switches found tail
    let (filled, rest) ← fillUses uses run
    let value ← filled.foldlM (fun value use => use.apply value) reading.value
    pure ({ reading with value }, rest)
  | _ => .ok ({ reading with strange := true }, run)

/-- The words in front of the first switch, and every switch with the words up to the next one. -/
def groups : List (Word σ) → List (Word σ) × List (Word σ × List (Word σ))
  | [] => ([], [])
  | word :: rest =>
    let (run, more) := groups rest
    if word.isSwitch then ([], (word, run) :: more) else (word :: run, more)

def Word.isSeparator : Word σ → Bool
  | .separator => true
  | _ => false

/-- What an operand finds among some words: no argument, one that is dropped, or its text. -/
inductive Found
  | nothing
  | dropped
  | text (text : Text)

/-- The first argument of some words, taken with the separators around it, and the words that are
left. The first word of two dashes among those taken is dropped, be it a separator or the argument
itself. -/
def takeArgument (run : List (Word σ)) : Found × List (Word σ) :=
  let front := run.takeWhile Word.isSeparator
  match run.dropWhile Word.isSeparator with
  | .argument text :: rest =>
    let taken := front ++ [.argument text] ++ rest.takeWhile Word.isSeparator
    (match (taken.map Word.text).erase dashes with
      | [] => .dropped
      | text :: _ => .text text,
      rest.dropWhile Word.isSeparator)
  | rest => (.nothing, rest)

/-- Gives the operands their arguments: what was read, the operands that have none yet, and the
words that are left. -/
def takeOperands : List (Operand σ) → List (Word σ) → σ →
    Except Exit (σ × List (Operand σ) × List (Word σ))
  | [], run, value => .ok (value, [], run)
  | operand :: missing, run, value =>
    let store (text : Option Text) (rest : List (Word σ)) :=
      match operand.store text value with
      | none => .error .misuse
      | some value => takeOperands missing rest value
    match takeArgument run with
    | (.text text, rest) => store (some text) rest
    | (.dropped, rest) =>
      if operand.required then store none rest else takeOperands missing rest value
    | (.nothing, rest) =>
      if operand.required then .ok (value, operand :: missing, run)
      else takeOperands missing rest value

/-- The reading after the words between two switches. -/
def readRun (missing : List (Operand σ)) (run : List (Word σ)) (reading : Reading σ) :
    Except Exit (List (Operand σ) × Reading σ) :=
  if run.isEmpty then .ok (missing, reading)
  else
    (takeOperands missing run reading.value).map fun (value, missing, left) =>
      (missing, ⟨value, reading.strange || !left.isEmpty⟩)

def readGroups (switches : List (Switch σ)) : List (Word σ × List (Word σ)) →
    List (Operand σ) → Reading σ → Except Exit (List (Operand σ) × Reading σ)
  | [], missing, reading => .ok (missing, reading)
  | (word, run) :: rest, missing, reading => do
    let (reading, run) ← word.read switches run reading
    let (missing, reading) ← readRun missing run reading
    readGroups switches rest missing reading

def Grammar.read (grammar : Grammar σ) (start : σ) (texts : List Text) :
    Except Exit (Reading σ) := do
  let words ← wordsOf grammar.switches texts
  let (run, rest) := groups words
  let (missing, reading) ← readRun grammar.operands run ⟨start, false⟩
  let (missing, reading) ← readGroups grammar.switches rest missing reading
  if missing.any (·.required) then .error .misuse else pure reading

/-- Reads the switches in front of the first argument, and leaves that argument and everything
behind it. -/
def readFront (switches : List (Switch σ)) : List (Word σ × List (Word σ)) → Reading σ →
    Except Exit (Reading σ × List (Word σ))
  | [], reading => .ok (reading, [])
  | (word, run) :: rest, reading => do
    let (reading, run) ← word.read switches run reading
    if run.isEmpty then readFront switches rest reading
    else pure (reading, run ++ rest.flatMap fun group => group.1 :: group.2)

/-- Reads the switches in front of a command, and leaves the texts from the command on. -/
def readSwitches (switches : List (Switch σ)) (start : σ) (texts : List Text) :
    Except Exit (Reading σ × List Text) := do
  let words ← wordsOf switches texts
  let (run, rest) := groups words
  if run.isEmpty then
    let (reading, left) ← readFront switches rest ⟨start, false⟩
    pure (reading, left.map Word.text)
  else pure (⟨start, false⟩, words.map Word.text)

end Dialogue.CommandLine
