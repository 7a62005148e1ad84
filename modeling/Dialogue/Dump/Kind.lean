import Dialogue.Dump.Decoder
import Dialogue.Dump.Names
import Dialogue.FileTree.Path

/-!
# Kinds of dump

What a dump holds is told from its file name alone, and so are the keys under which its messages
are found and the category of its names. Upper and lower case do not matter.
-/

namespace Dialogue.Dump

inductive Kind
  | messages
  | speakers
  | nameTable
  | formTable
deriving DecidableEq, Repr

/-- Parts of a stem that mark a dump nobody reads. -/
def skippedMarkers : List Text := ["uidatabase"]

/-- Parts of a stem that mark a name table; they are also its category. -/
def nameMarkers : List Text := ["monsname", "itemname"]

/-- The part of a stem that marks the form table. -/
def formTableMarker : Text := "zkn_form"

/-- The part of a stem that marks the speaker names. -/
def speakerMarker : Text := "speakers_name"

def lowerStem (path : Text) : Text := Text.lower (Path.stem path)

/-- What the dump at a path holds; none if it is not read. -/
def Kind.ofPath? (path : Text) : Option Kind :=
  let stem := lowerStem path
  if skippedMarkers.any (Text.occursIn · stem) then none
  else if nameMarkers.any (Text.occursIn · stem) then some .nameTable
  else if Text.occursIn formTableMarker stem then some .formTable
  else if Text.occursIn speakerMarker stem then some .speakers
  else some .messages

def dumpExtension : Text := ".asset"

def isSupported (path : Text) : Bool :=
  Text.lower (Path.extension path) == dumpExtension && (Kind.ofPath? path).isSome

/-- Prefixes of a stem that a message file can be asked for without. -/
def aliasPrefixes : List Text := ["english_", "ss_"]

/-- The stem without the prefixes, each taken off once and in their order. -/
def shortStem (stem : Text) : Text :=
  aliasPrefixes.foldl (fun short start => (Text.after? start short).getD short) stem

/-- The keys of a message file: its stem, and its stem without prefixes if that is another one
and not empty. -/
def aliases (path : Text) : List Text :=
  let stem := lowerStem path
  let short := shortStem stem
  if short == stem || short.isEmpty then [stem] else [stem, short]

/-- The category of a name table: the marker in its name, or the whole name. -/
def category (path : Text) : Text :=
  let name := Text.lower (Path.base path)
  (nameMarkers.find? (Text.occursIn · name)).getD name

def formCategory : Text := "form"

inductive Content
  | messages (messages : Messages)
  | names (names : Names)

def Kind.decode (kind : Kind) (text : Text) : Except Error Content :=
  match kind with
  | .messages => (Dump.decode .table text).map .messages
  | .speakers => (Dump.decode .labelList text).map .messages
  | .nameTable => ((decodeNames .index text).map .names).mapError .overlong
  | .formTable => ((decodeNames .form text).map .names).mapError .overlong

end Dialogue.Dump
