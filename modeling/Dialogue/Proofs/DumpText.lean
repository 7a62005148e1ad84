import Dialogue.Proofs.Blanks
import Dialogue.Proofs.Reading
import Mathlib.Data.List.Forall2

/-!
# How a dump writes its labels

A label has a name, a tag list and a word list. Its text joins what its words say, and a table of
labels stands for the texts under the lowercased names (`Label.entry?`). A dump writes the labels
line by line as items and their fields (`DumpLines`): the fields of an item stand in any order, its
first line has the dash, and other lines may stand between them. In a dump that was not written from
labels, anything may stand as a number of a tag item, or nothing (`WrittenDump`).
-/

namespace Dialogue.Dump

/-- A tag as a label lists it, with a group or without. -/
structure ListedTag where
  id : Nat
  group : Option Int := none
deriving DecidableEq, Repr

def ListedTag.tag (tag : ListedTag) : Tag := ⟨tag.id, tag.group.getD defaultGroup⟩

structure Label where
  name : Text
  tags : List ListedTag := []
  words : List Word := []
deriving DecidableEq, Repr

namespace Label

/-- The placeholder of a tag index: the tag at that place of the list, or the index itself in the
default group if the list is shorter. -/
def placeholder (label : Label) (index : Nat) : Text :=
  ((label.tags.map ListedTag.tag)[index]?.getD ⟨index, defaultGroup⟩).token

/-- What a word says: its literal, its placeholder, the flow mark of its event. -/
def wordText (label : Label) (word : Word) : Text :=
  word.literal.getD [] ++ (word.tagIndex.map label.placeholder).getD []
    ++ ((Flow.ofEvent? word.event word.literal.isSome).map Flow.token).getD []

def text (label : Label) : Text := label.words.flatMap label.wordText

/-- The text under the lowercased name; none if one of them is empty. -/
def entry? (label : Label) : Option (Text × Text) :=
  if label.name = [] ∨ label.text = [] then none else some (Text.lower label.name, label.text)

end Label

section Lines

abbrev Field := Text × Text

/-- The mark of an item's first line. -/
def dash : Bool → Text
  | true => "- "
  | false => []

/-- The line of a field: blanks, the dash if it opens an item, the key, and the value with blanks
around it. -/
def FieldLine (opens : Bool) (field : Field) (line : Text) : Prop :=
  ∃ indent tail, Text.Blank indent ∧ line = indent ++ dash opens ++ field.1 ++ tail
    ∧ Text.trim tail = field.2

/-- The line has the key neither at its start nor after a dash. -/
def Lacks (key line : Text) : Prop :=
  ¬ key <+: Text.trim line ∧ ¬ dash true ++ key <+: Text.trim line

instance (key line : Text) : Decidable (Lacks key line) :=
  inferInstanceAs (Decidable (_ ∧ _))

/-- A line that begins with no key. -/
def OtherLine (opens : Bool) (line : Text) : Prop :=
  (['-'] <+: Text.trim line ↔ opens = true) ∧ ∀ key ∈ Line.keys, Lacks key line

/-- A text that can stand as a key: it starts with neither a blank nor a dash and ends with no
blank. -/
def IsKey (key : Text) : Prop :=
  key.head?.all (fun c => !Text.isBlank c && c != '-') = true
    ∧ key.getLast?.all (fun c => !Text.isBlank c) = true ∧ 2 ≤ key.length

instance (key : Text) : Decidable (IsKey key) :=
  inferInstanceAs (Decidable (_ ∧ _ ∧ _))

theorem isKey_of_mem {key : Text} (h : key ∈ Line.keys) : IsKey key := by
  have hkeys : ∀ key ∈ Line.keys, IsKey key := by decide +kernel
  exact hkeys key h

theorem key_eq {key : Text} (h : IsKey key) : ∃ c mid d, key = c :: mid ++ [d]
    ∧ Text.isBlank c = false ∧ c ≠ '-' ∧ Text.isBlank d = false := by
  obtain ⟨hhead, hlast, hlen⟩ := h
  rcases key with _ | ⟨c, rest⟩
  · simp at hlen
  rcases List.eq_nil_or_concat rest with rfl | ⟨mid, d, rfl⟩
  · simp at hlen
  rw [List.concat_eq_append, ← List.cons_append, List.getLast?_concat] at hlast
  simp only [List.head?_cons, Option.all_some, Bool.and_eq_true, Bool.not_eq_true',
    bne_iff_ne] at hhead hlast
  exact ⟨c, mid, d, by simp, hhead.1, hhead.2, hlast⟩

/-- Blanks around a line and after its value are trimmed off. -/
theorem trim_line {indent tail key : Text} (opens : Bool) (hkey : IsKey key)
    (hindent : Text.Blank indent) :
    Text.trim (indent ++ dash opens ++ key ++ tail) = dash opens ++ key ++ Text.trimEnd tail := by
  obtain ⟨c, mid, d, rfl, hc, -, hd⟩ := key_eq hkey
  have hend : Text.trimEnd (dash opens ++ (c :: mid ++ [d]) ++ tail)
      = dash opens ++ (c :: mid ++ [d]) ++ Text.trimEnd tail := by
    have h := Text.trimEnd_append (dash opens ++ c :: mid) hd tail
    simpa using h
  rw [List.append_assoc, List.append_assoc, Text.trim_append hindent, Text.trim,
    ← List.append_assoc]
  cases opens with
  | false =>
    rw [← hend]
    exact congrArg Text.trimEnd (Text.trimStart_cons hc _)
  | true =>
    rw [← hend]
    exact congrArg Text.trimEnd (Text.trimStart_cons (by decide) _)

/-- The lines of an item from some line on: the fields in their order, and other lines. The line
in front opens the item or not, and those after it do not. -/
inductive ItemLines {φ : Type} (field : φ → Field) : Bool → List φ → List Text → Prop
  | done : ItemLines field false [] []
  | field {opens : Bool} {f : φ} {fields : List φ} {line : Text} {rest : List Text} :
    FieldLine opens (field f) line → ItemLines field false fields rest →
      ItemLines field opens (f :: fields) (line :: rest)
  | other {opens : Bool} {fields : List φ} {line : Text} {rest : List Text} :
    OtherLine opens line → ItemLines field false fields rest →
      ItemLines field opens fields (line :: rest)

/-- The key that opens a list, and other lines after it. -/
def HeadLines (key : Text) (lines : List Text) : Prop :=
  ∃ value line rest, lines = line :: rest ∧ FieldLine false (key, value) line
    ∧ ∀ other ∈ rest, OtherLine false other

end Lines

section Items

inductive TagField
  | id (n : Nat)
  | group (n : Int)
deriving DecidableEq, Repr

def TagField.field : TagField → Field
  | .id n => (tagIndexKey, Text.ofNat n)
  | .group n => (groupKey, Text.ofInt n)

/-- The fields of a tag, the group only if it has one. -/
def ListedTag.fields (tag : ListedTag) : List TagField :=
  .id tag.id :: (tag.group.map .group).toList

inductive WordField
  | literal (value : Text)
  | event (n : Int)
  | index (n : Int)
deriving DecidableEq, Repr

def WordField.field : WordField → Field
  | .literal value => (literalKey, value)
  | .event n => (eventKey, Text.ofInt n)
  | .index n => (tagIndexKey, Text.ofInt n)

def enquote (text : Text) : Text := '\x27' :: (text ++ ['\x27'])

/-- How a literal is written: bare, if it has no blanks and no quotes around it, or in quotes. -/
def Spelled (literal value : Text) : Prop :=
  (value = literal ∧ Text.trim literal = literal ∧ ∀ inner, literal ≠ enquote inner)
    ∨ value = enquote literal

/-- The field of a literal, if there is one. -/
inductive LiteralFields : Option Text → List WordField → Prop
  | none : LiteralFields none []
  | some {literal value : Text} : Spelled literal value →
    LiteralFields (some literal) [.literal value]

/-- The field of a tag index. Without one it is left out, or negative. -/
inductive IndexFields : Option Nat → List WordField → Prop
  | none : IndexFields none []
  | negative (n : Nat) : IndexFields none [.index (.negSucc n)]
  | some (i : Nat) : IndexFields (some i) [.index i]

inductive WordFields (word : Word) : List WordField → Prop
  | mk {literal index : List WordField} :
    LiteralFields word.literal literal → IndexFields word.tagIndex index →
      WordFields word (literal ++ (word.event.map .event).toList ++ index)

def TagLines (tag : ListedTag) (lines : List Text) : Prop :=
  ∃ fields, fields.Perm tag.fields ∧ ItemLines TagField.field true fields lines

def WordLines (word : Word) (lines : List Text) : Prop :=
  ∃ written fields, WordFields word written ∧ fields.Perm written
    ∧ ItemLines WordField.field true fields lines

/-- The item of a label: its name, its tag list and its word list. -/
inductive LabelLines (label : Label) : List Text → Prop
  | mk {name tagHead wordHead : List Text} {tags words : List (List Text)} :
    ItemLines id true [(labelNameKey, label.name)] name →
    HeadLines tagArrayKey tagHead → List.Forall₂ TagLines label.tags tags →
    HeadLines wordArrayKey wordHead → List.Forall₂ WordLines label.words words →
      LabelLines label (name ++ tagHead ++ tags.flatten ++ wordHead ++ words.flatten)

/-- What stands before the labels: in a whole table anything up to the key of the label list, in a
label list anything without the keys of a label. -/
inductive FrontLines : Layout → List Text → Prop
  | table {front head : List Text} :
    (∀ line ∈ front, Lacks labelArrayKey line) → HeadLines labelArrayKey head →
      FrontLines .table (front ++ head)
  | labelList {front : List Text} :
    (∀ line ∈ front, ∀ key ∈ [labelNameKey, tagArrayKey, wordArrayKey], Lacks key line) →
      FrontLines .labelList front

inductive DumpLines (layout : Layout) (labels : List Label) : List Text → Prop
  | mk {front : List Text} {items : List (List Text)} :
    FrontLines layout front → List.Forall₂ LabelLines labels items →
      DumpLines layout labels (front ++ items.flatten)

end Items

section Written

/-- No number on the line is too long to be read. -/
def ReadsNumbers (line : Text) : Prop :=
  ∀ key ∈ [tagIndexKey, groupKey, eventKey], ∀ value, (Line.ofText line).value? key = some value →
    ∃ read, Text.leadingInt? value = .ok read

/-- The integer that a value starts with, if there is one. -/
def integer? (value : Text) : Option Int := (Text.leadingInt? value).toOption.join

/-- What an item of a tag list has written in it for its number and for its group. -/
structure WrittenTag where
  number : Option Text := none
  group : Option Text := none
deriving DecidableEq, Repr

/-- The tag of an item that has a number, which is an integer and not negative. -/
def WrittenTag.listed? (item : WrittenTag) : Option ListedTag :=
  ((item.number.bind integer?).bind Int.toNat?).map fun id => ⟨id, item.group.bind integer?⟩

inductive TagText
  | number (value : Text)
  | group (value : Text)
deriving DecidableEq, Repr

def TagText.field : TagText → Field
  | .number value => (tagIndexKey, value)
  | .group value => (groupKey, value)

def WrittenTag.fields (item : WrittenTag) : List TagText :=
  (item.number.map .number).toList ++ (item.group.map .group).toList

def WrittenTagLines (item : WrittenTag) (lines : List Text) : Prop :=
  ∃ fields, fields.Perm item.fields ∧ ItemLines TagText.field true fields lines

/-- A label whose tag list may have items without a number. -/
structure WrittenLabel where
  name : Text
  items : List WrittenTag := []
  words : List Word := []
deriving DecidableEq, Repr

/-- The label with the tags of the items that have a number. -/
def WrittenLabel.label (written : WrittenLabel) : Label :=
  ⟨written.name, written.items.filterMap WrittenTag.listed?, written.words⟩

inductive WrittenLabelLines (written : WrittenLabel) : List Text → Prop
  | mk {name tagHead wordHead : List Text} {tags words : List (List Text)} :
    ItemLines id true [(labelNameKey, written.name)] name →
    HeadLines tagArrayKey tagHead → List.Forall₂ WrittenTagLines written.items tags →
    HeadLines wordArrayKey wordHead → List.Forall₂ WordLines written.words words →
      WrittenLabelLines written (name ++ tagHead ++ tags.flatten ++ wordHead ++ words.flatten)

inductive WrittenDump (layout : Layout) (labels : List WrittenLabel) : List Text → Prop
  | mk {front : List Text} {items : List (List Text)} :
    FrontLines layout front → List.Forall₂ WrittenLabelLines labels items →
      WrittenDump layout labels (front ++ items.flatten)

end Written

end Dialogue.Dump
