import Dialogue.Text.Blank

/-!
# Lines of a dump

A dump is a nest of list items and fields, one a line. Indentation has no meaning here: a line is
its key and its value, and whether it opens a list item.
-/

namespace Dialogue.Dump

/-- A line of a dump without the blanks around it. -/
structure Line where
  /-- The line without the mark of a list item. -/
  clean : Text
  /-- Whether the line opens a list item. -/
  opensItem : Bool
deriving DecidableEq, Repr

namespace Line

/-- The line of a text. A dash opens an item; only a dash and a space are cut off. -/
def ofText (text : Text) : Line :=
  let trimmed := Text.trim text
  match trimmed with
  | '-' :: ' ' :: rest => ⟨rest, true⟩
  | '-' :: _ => ⟨trimmed, true⟩
  | _ => ⟨trimmed, false⟩

/-- Whether the line is the field of a key. -/
def hasKey (line : Line) (key : Text) : Bool := key.isPrefixOf line.clean

/-- The trimmed value of a key, if the line is the field of that key. -/
def value? (line : Line) (key : Text) : Option Text :=
  (Text.after? key line.clean).map Text.trim

end Line

/-- A value without the single quotes that wrap it, if they do. -/
def unquote (value : Text) : Text :=
  match value with
  | '\x27' :: rest => if rest.getLast? == some '\x27' then rest.dropLast else value
  | _ => value

def labelArrayKey : Text := "labelDataArray:"

def labelNameKey : Text := "labelName:"

def tagArrayKey : Text := "tagDataArray:"

/-- The key of a tag's number, and of the tag a word points at. -/
def tagIndexKey : Text := "tagIndex:"

def groupKey : Text := "groupID:"

def wordArrayKey : Text := "wordDataArray:"

def literalKey : Text := "str:"

def eventKey : Text := "eventID:"

def arrayIndexKey : Text := "arrayIndex:"

end Dialogue.Dump
