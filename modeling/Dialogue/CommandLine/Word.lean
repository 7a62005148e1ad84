import Dialogue.Text.Digit

/-!
# Words of a command line

A word that starts with a dash is a switch if it is one of the names of a switch, the start of
exactly one long name, or a short name with more behind it. A name may have a value behind an equals
sign; behind a short name the sign may be left out. Other words with a dash are arguments if they
look like a negative number or hold a space, and else switches that nobody knows. Behind two dashes
every word is an argument.
-/

namespace Dialogue.CommandLine

/-- Why a command line is not carried out: it asks for help, or it does not fit. -/
inductive Exit
  | help
  | misuse
deriving DecidableEq, Repr

def Exit.code : Exit → Nat
  | .help => 0
  | .misuse => 2

/-- What a switch does to what was read in front of it. The value of a switch that takes one is
missing where only two dashes were given for it. -/
inductive Effect (σ : Type)
  | change (f : σ → σ)
  | value (f : Option Text → σ → σ)
  | help

/-- A switch: its names with their dashes, and what it does. -/
structure Switch (σ : Type) where
  names : List Text
  effect : Effect σ

/-- What stands in a word behind the name of a switch: nothing, a value behind the equals sign of a
long name, or what follows a short name and its equals sign. -/
inductive Tail
  | nothing
  | assigned (value : Text)
  | joined (rest : Text)

/-- What a word is taken for. -/
inductive Word (σ : Type)
  | argument (text : Text)
  | separator
  | switch (text : Text) (found : Switch σ) (tail : Tail)
  | unknown (text : Text)

def dashes : Text := ['-', '-']

def Word.text {σ : Type} : Word σ → Text
  | .argument text => text
  | .separator => dashes
  | .switch text _ _ => text
  | .unknown text => text

/-- Whether the word is a switch, also one that nobody knows. -/
def Word.isSwitch {σ : Type} : Word σ → Bool
  | .switch _ _ _ => true
  | .unknown _ => true
  | _ => false

variable {σ : Type}

/-- Every name of the switches, with its switch. -/
def switchNames (switches : List (Switch σ)) : List (Text × Switch σ) :=
  switches.flatMap fun switch => switch.names.map fun name => (name, switch)

def switchNamed? (switches : List (Switch σ)) (name : Text) : Option (Switch σ) :=
  ((switchNames switches).find? fun entry => entry.1 == name).map (·.2)

def isLong (name : Text) : Bool := dashes.isPrefixOf name

/-- A word in two: up to its first equals sign, and what stands behind it. -/
def splitAssigned (text : Text) : Text × Tail :=
  let name := text.takeWhile (· != '=')
  match text.dropWhile (· != '=') with
  | [] => (text, .nothing)
  | _ :: value => (name, if isLong name then .assigned value else .joined value)

/-- What a word may mean that is not the name of a switch: the long names that start with it, or the
short name that it starts with. -/
def meanings (switches : List (Switch σ)) (text : Text) : List (Switch σ × Tail) :=
  let names := switchNames switches
  if isLong text then
    let (start, tail) := splitAssigned text
    (names.filter fun entry => start.isPrefixOf entry.1).map fun entry => (entry.2, tail)
  else
    (names.filter fun entry => entry.1 == text.take 2).map fun entry =>
      (entry.2, .joined (text.drop 2))

/-- Whether the text is a minus sign with digits, or with a fraction. One line feed may follow. -/
def looksNegative : Text → Bool
  | '-' :: rest =>
    let number := if rest.getLast? == some '\n' then rest.dropLast else rest
    match number.dropWhile Text.isDecimal with
    | [] => !number.isEmpty
    | '.' :: fraction => !fraction.isEmpty && fraction.all Text.isDecimal
    | _ => false
  | _ => false

/-- What a word in front of the two dashes is taken for. A word that starts more than one long name
is a misuse. -/
def Word.ofText (switches : List (Switch σ)) (text : Text) : Except Exit (Word σ) :=
  if text.head? != some '-' then .ok (.argument text)
  else
    let (name, tail) := splitAssigned text
    match switchNamed? switches name with
    | some found => .ok (.switch text found tail)
    | none =>
      if text == ['-'] then .ok (.argument text)
      else
        match meanings switches text with
        | [(found, tail)] => .ok (.switch text found tail)
        | _ :: _ :: _ => .error .misuse
        | [] =>
          if looksNegative text || text.contains ' ' then .ok (.argument text)
          else .ok (.unknown text)

def wordsOf (switches : List (Switch σ)) : List Text → Except Exit (List (Word σ))
  | [] => .ok []
  | text :: rest =>
    if text == dashes then .ok (.separator :: rest.map .argument)
    else
      match Word.ofText switches text with
      | .error e => .error e
      | .ok word => (wordsOf switches rest).map (word :: ·)

end Dialogue.CommandLine
