import Dialogue.Proofs.Digits
import Dialogue.Proofs.DumpText
import Dialogue.Proofs.Lines

/-!
# Writing labels as a dump

Every table of labels can be written, as long as no name has blanks around it and no name or literal
has a line end in it: the lines that `dumpLines` gives are a dump of the labels, also when they are
joined and cut again (`dumpLines_written`).
-/

namespace Dialogue.Dump

open Text

section Writer

/-- A line of a dump: the indent, the dash if it opens an item, the key, a space and the value. -/
def lineOf (indent : Nat) (opens : Bool) (key value : Text) : Text :=
  List.replicate indent ' ' ++ dash opens ++ key ++ ' ' :: value

def tagLines (tag : ListedTag) : List Text :=
  [lineOf 4 true tagIndexKey (ofNat tag.id)]
    ++ (tag.group.map fun n => lineOf 6 false groupKey (ofInt n)).toList
    ++ [lineOf 6 false "tagPatternID:" "0"]

/-- The lines of a word. Without a tag index it has the index -1. -/
def wordLines (word : Word) : List Text :=
  [lineOf 4 true "patternID:" "0"]
    ++ (word.event.map fun n => lineOf 6 false eventKey (ofInt n)).toList
    ++ [lineOf 6 false tagIndexKey ((word.tagIndex.map ofNat).getD (ofInt (-1))),
      lineOf 6 false "tagValue:" "0"]
    ++ (word.literal.map fun l =>
      [lineOf 6 false literalKey (enquote l), lineOf 6 false "strWidth:" "42.5"]).getD []

def labelLines (place : Nat) (label : Label) : List Text :=
  [lineOf 2 true "labelIndex:" (ofNat place), lineOf 4 false arrayIndexKey (ofNat place),
      lineOf 4 false labelNameKey label.name, lineOf 4 false "styleInfo:" [],
      lineOf 6 false "styleIndex:" "0"]
    ++ [lineOf 4 false tagArrayKey (if label.tags = [] then "[]" else [])]
    ++ (label.tags.map tagLines).flatten
    ++ [lineOf 4 false wordArrayKey []]
    ++ (label.words.map wordLines).flatten

def labelItems : Nat → List Label → List (List Text)
  | _, [] => []
  | place, label :: labels => labelLines place label :: labelItems (place + 1) labels

def frontLines : List Text :=
  ["%YAML 1.1", "--- !u!114 &11400000", "MonoBehaviour:", lineOf 2 false "m_Name:" "test",
    lineOf 2 false labelArrayKey []]

def dumpLines (labels : List Label) : List Text := frontLines ++ (labelItems 0 labels).flatten

end Writer

section Relation

theorem blank_replicate (n : Nat) : Blank (List.replicate n ' ') := by
  intro c hc
  rw [List.eq_of_mem_replicate hc]
  decide

theorem fieldLine_lineOf (indent : Nat) (opens : Bool) (key : Text) {value : Text}
    (h : trim value = value) : FieldLine opens (key, value) (lineOf indent opens key value) := by
  refine ⟨List.replicate indent ' ', ' ' :: value, blank_replicate indent, rfl, ?_⟩
  have hspace : Blank [' '] := blank_replicate 1
  exact (trim_append hspace value).trans h

/-- A key that neither begins with one of the known keys nor is the beginning of one. -/
def Unknown (key : Text) : Prop :=
  IsKey key ∧ ∀ known ∈ Line.keys, ¬ known <+: key ∧ ¬ key <+: known

instance (key : Text) : Decidable (Unknown key) :=
  inferInstanceAs (Decidable (_ ∧ _))

theorem head_ne_dash {key : Text} (h : IsKey key) (rest tail : Text) :
    ¬ '-' :: rest <+: key ++ tail := by
  obtain ⟨c, mid, d, rfl, -, hc, -⟩ := key_eq h
  intro hp
  exact hc (List.cons_prefix_cons.1 hp).1.symm

theorem not_known {key known : Text} (h : Unknown key) (hknown : known ∈ Line.keys)
    (tail : Text) : ¬ known <+: key ++ tail := by
  intro hp
  rcases List.prefix_or_prefix_of_prefix hp (List.prefix_append key tail) with hp | hp
  · exact (h.2 known hknown).1 hp
  · exact (h.2 known hknown).2 hp

theorem otherLine_lineOf (indent : Nat) (opens : Bool) {key : Text} (h : Unknown key)
    (value : Text) : OtherLine opens (lineOf indent opens key value) := by
  have htrim : trim (lineOf indent opens key value) = dash opens ++ key ++ trimEnd (' ' :: value) :=
    trim_line opens h.1 (blank_replicate indent)
  refine ⟨?_, fun known hknown => ?_⟩
  · rw [htrim]
    cases opens with
    | false => simpa [dash] using head_ne_dash h.1 [] (trimEnd (' ' :: value))
    | true => simp [dash]
  · rw [Lacks, htrim]
    cases opens with
    | false => exact ⟨not_known h hknown _, head_ne_dash h.1 (' ' :: known) _⟩
    | true =>
      refine ⟨fun hp => ?_, fun hp => ?_⟩
      · obtain ⟨c, mid, d, rfl, -, hc, -⟩ := key_eq (isKey_of_mem hknown)
        exact hc (List.cons_prefix_cons.1 hp).1
      · rw [List.append_assoc] at hp
        exact not_known h hknown _ ((List.prefix_append_right_inj (dash true)).1 hp)

theorem headLines_lineOf (indent : Nat) {key value : Text} (h : trim value = value)
    {rest : List Text} (hrest : ∀ line ∈ rest, OtherLine false line) :
    HeadLines key (lineOf indent false key value :: rest) :=
  ⟨value, _, rest, rfl, fieldLine_lineOf indent false key h, hrest⟩

theorem itemLines_append {φ : Type} {field : φ → Field} {opens : Bool} {fields others : List φ}
    {lines rest : List Text} (h : ItemLines field opens fields lines)
    (hrest : ItemLines field false others rest) :
    ItemLines field opens (fields ++ others) (lines ++ rest) := by
  induction h with
  | done => exact hrest
  | field hline _ ih => exact .field hline ih
  | other hline _ ih => exact .other hline ih

theorem trim_enquote (text : Text) : trim (enquote text) = enquote text := by
  have hquote : isBlank '\x27' = false := by decide
  have hend : trimEnd ('\x27' :: text ++ ['\x27']) = '\x27' :: text ++ '\x27' :: trimEnd [] :=
    trimEnd_append ('\x27' :: text) hquote []
  rw [trim, enquote, trimStart_cons hquote]
  exact hend

theorem tagLines_written (tag : ListedTag) : TagLines tag (tagLines tag) := by
  refine ⟨tag.fields, .refl _, ?_⟩
  have hid : ItemLines TagField.field true [.id tag.id]
      [lineOf 4 true tagIndexKey (ofNat tag.id)] :=
    .field (fieldLine_lineOf 4 true tagIndexKey (trim_ofInt tag.id)) .done
  have hgroup : ItemLines TagField.field false (tag.group.map .group).toList
      (tag.group.map fun n => lineOf 6 false groupKey (ofInt n)).toList := by
    rcases tag.group with _ | n
    · exact .done
    · exact .field (fieldLine_lineOf 6 false groupKey (trim_ofInt n)) .done
  have hpattern : ItemLines TagField.field false [] [lineOf 6 false "tagPatternID:" "0"] :=
    .other (otherLine_lineOf 6 false (by decide +kernel) _) .done
  have hall := itemLines_append (itemLines_append hid hgroup) hpattern
  rw [List.append_nil] at hall
  exact hall

theorem wordLines_written (word : Word) : WordLines word (wordLines word) := by
  rcases word with ⟨literal?, event?, index?⟩
  have hpattern : ItemLines WordField.field true [] [lineOf 4 true "patternID:" "0"] :=
    .other (otherLine_lineOf 4 true (by decide +kernel) _) .done
  have hevent : ItemLines WordField.field false (event?.map .event).toList
      (event?.map fun n => lineOf 6 false eventKey (ofInt n)).toList := by
    rcases event? with _ | n
    · exact .done
    · exact .field (fieldLine_lineOf 6 false eventKey (trim_ofInt n)) .done
  have hvalue : ItemLines WordField.field false [] [lineOf 6 false "tagValue:" "0"] :=
    .other (otherLine_lineOf 6 false (by decide +kernel) _) .done
  obtain ⟨index, hindex, hindexLines⟩ : ∃ index, IndexFields index? index
      ∧ ItemLines WordField.field false index
        [lineOf 6 false tagIndexKey ((index?.map ofNat).getD (ofInt (-1)))] := by
    rcases index? with _ | i
    · exact ⟨_, .negative 0,
        .field (fieldLine_lineOf 6 false tagIndexKey (trim_ofInt (.negSucc 0))) .done⟩
    · exact ⟨_, .some i, .field (fieldLine_lineOf 6 false tagIndexKey (trim_ofInt i)) .done⟩
  obtain ⟨literal, hliteral, hliteralLines⟩ : ∃ literal, LiteralFields literal? literal
      ∧ ItemLines WordField.field false literal ((literal?.map fun l =>
        [lineOf 6 false literalKey (enquote l), lineOf 6 false "strWidth:" "42.5"]).getD []) := by
    rcases literal? with _ | l
    · exact ⟨[], .none, .done⟩
    · exact ⟨[.literal (enquote l)], .some (.inr rfl),
        .field (fieldLine_lineOf 6 false literalKey (trim_enquote l))
          (.other (otherLine_lineOf 6 false (by decide +kernel) _) .done)⟩
  refine ⟨_, (event?.map .event).toList ++ index ++ literal, .mk hliteral hindex, ?_, ?_⟩
  · rw [List.append_assoc literal]
    exact List.perm_append_comm
  · have hall := itemLines_append (itemLines_append (itemLines_append (itemLines_append hpattern
      hevent) hindexLines) hvalue) hliteralLines
    rw [List.nil_append, List.append_nil] at hall
    simpa [wordLines] using hall

theorem forall₂_map {α : Type} {R : α → List Text → Prop} {f : α → List Text}
    (h : ∀ a, R a (f a)) : ∀ l : List α, List.Forall₂ R l (l.map f)
  | [] => .nil
  | a :: l => .cons (h a) (forall₂_map h l)

/-- The first lines of a label's item, up to its tag list. -/
def nameLines (place : Nat) (name : Text) : List Text :=
  [lineOf 2 true "labelIndex:" (ofNat place), lineOf 4 false arrayIndexKey (ofNat place),
    lineOf 4 false labelNameKey name, lineOf 4 false "styleInfo:" [],
    lineOf 6 false "styleIndex:" "0"]

theorem nameLines_written (place : Nat) {name : Text} (h : trim name = name) :
    ItemLines id true [(labelNameKey, name)] (nameLines place name) :=
  .other (otherLine_lineOf 2 true (by decide +kernel) _)
    (.other (otherLine_lineOf 4 false (by decide +kernel) _)
      (.field (fieldLine_lineOf 4 false labelNameKey h)
        (.other (otherLine_lineOf 4 false (by decide +kernel) _)
          (.other (otherLine_lineOf 6 false (by decide +kernel) _) .done))))

theorem labelLines_written (place : Nat) {label : Label} (h : trim label.name = label.name) :
    LabelLines label (labelLines place label) := by
  have hname : ItemLines id true [(labelNameKey, label.name)] (nameLines place label.name) :=
    nameLines_written place h
  have htags : HeadLines tagArrayKey
      [lineOf 4 false tagArrayKey (if label.tags = [] then "[]" else [])] := by
    refine headLines_lineOf 4 ?_ (by simp)
    split <;> decide
  have hwords : HeadLines wordArrayKey [lineOf 4 false wordArrayKey []] :=
    headLines_lineOf 4 rfl (by simp)
  exact .mk hname htags (forall₂_map tagLines_written _) hwords (forall₂_map wordLines_written _)

theorem labelItems_written : ∀ (place : Nat) {labels : List Label},
    (∀ label ∈ labels, trim label.name = label.name) →
      List.Forall₂ LabelLines labels (labelItems place labels)
  | _, [], _ => .nil
  | place, label :: labels, h => by
    obtain ⟨hlabel, hlabels⟩ := List.forall_mem_cons.1 h
    exact .cons (labelLines_written place hlabel) (labelItems_written (place + 1) hlabels)

theorem frontLines_written : FrontLines .table frontLines := by
  have hfront : ∀ line ∈ frontLines.take 4, Lacks labelArrayKey line := by decide +kernel
  exact .table hfront (headLines_lineOf 2 rfl (by simp))

end Relation

section Cutting

theorem oneLine_lineOf (indent : Nat) (opens : Bool) {key value : Text} (hkey : OneLine key)
    (hvalue : OneLine value) : OneLine (lineOf indent opens key value) := by
  have hindent : OneLine (List.replicate indent ' ') := by
    intro c hc
    rw [List.eq_of_mem_replicate hc]
    decide
  have hdash : OneLine (dash opens) := by cases opens <;> decide
  have hspace : OneLine (' ' :: value) := List.forall_mem_cons.2 ⟨by decide, hvalue⟩
  simp only [lineOf, oneLine_append]
  exact ⟨⟨⟨hindent, hdash⟩, hkey⟩, hspace⟩

theorem oneLine_tagLines (tag : ListedTag) : ∀ line ∈ tagLines tag, OneLine line := by
  simp only [tagLines, List.forall_mem_append, List.forall_mem_singleton]
  refine ⟨⟨oneLine_lineOf 4 true (by decide) (oneLine_ofInt tag.id), ?_⟩, by decide⟩
  rcases tag.group with _ | n
  · simp
  · simpa using oneLine_lineOf 6 false (by decide) (oneLine_ofInt n)

theorem oneLine_wordLines {word : Word} (h : ∀ l ∈ word.literal, OneLine l) :
    ∀ line ∈ wordLines word, OneLine line := by
  rcases word with ⟨literal?, event?, index?⟩
  simp only [wordLines, List.forall_mem_append, List.forall_mem_cons]
  refine ⟨⟨⟨by decide, ?_⟩, ?_, by decide⟩, ?_⟩
  · rcases event? with _ | n
    · simp
    · simpa using oneLine_lineOf 6 false (by decide) (oneLine_ofInt n)
  · refine oneLine_lineOf 6 false (by decide) ?_
    rcases index? with _ | i
    · exact oneLine_ofInt (-1)
    · exact oneLine_ofInt i
  · rcases literal? with _ | l
    · simp
    · have hquote : OneLine (enquote l) := by
        refine List.forall_mem_cons.2 ⟨by decide, ?_⟩
        exact oneLine_append.2 ⟨h l rfl, by decide⟩
      simpa using ⟨oneLine_lineOf 6 false (by decide) hquote, by decide⟩

/-- The name and the literals of the label have no line end in them. -/
def Label.OneLined (label : Label) : Prop :=
  OneLine label.name ∧ ∀ word ∈ label.words, ∀ l ∈ word.literal, OneLine l

instance (label : Label) : Decidable label.OneLined :=
  inferInstanceAs (Decidable (_ ∧ _))

theorem oneLine_labelLines (place : Nat) {label : Label} (h : label.OneLined) :
    ∀ line ∈ labelLines place label, OneLine line := by
  simp only [labelLines, List.forall_mem_append, List.forall_mem_cons]
  refine ⟨⟨⟨⟨⟨?_, ?_, ?_, by decide⟩, ?_, by simp⟩, ?_⟩, by decide⟩, ?_⟩
  · exact oneLine_lineOf 2 true (by decide) (oneLine_ofInt place)
  · exact oneLine_lineOf 4 false (by decide) (oneLine_ofInt place)
  · exact oneLine_lineOf 4 false (by decide) h.1
  · refine oneLine_lineOf 4 false (by decide) ?_
    split <;> decide
  · intro line hline
    obtain ⟨lines, hlines, hline⟩ := List.mem_flatten.1 hline
    obtain ⟨tag, -, rfl⟩ := List.mem_map.1 hlines
    exact oneLine_tagLines tag line hline
  · intro line hline
    obtain ⟨lines, hlines, hline⟩ := List.mem_flatten.1 hline
    obtain ⟨word, hword, rfl⟩ := List.mem_map.1 hlines
    exact oneLine_wordLines (h.2 word hword) line hline

theorem oneLine_labelItems : ∀ (place : Nat) {labels : List Label},
    (∀ label ∈ labels, label.OneLined) → ∀ line ∈ (labelItems place labels).flatten, OneLine line
  | _, [], _ => by simp [labelItems]
  | place, label :: labels, h => by
    obtain ⟨hlabel, hlabels⟩ := List.forall_mem_cons.1 h
    rw [labelItems, List.flatten_cons, List.forall_mem_append]
    exact ⟨oneLine_labelLines place hlabel, oneLine_labelItems (place + 1) hlabels⟩

/-- The lines are read back from the text that they make, and are a dump of the labels. -/
theorem dumpLines_written {labels : List Label}
    (hnames : ∀ label ∈ labels, trim label.name = label.name)
    (hlines : ∀ label ∈ labels, label.OneLined) :
    DumpLines .table labels (lines (terminated (dumpLines labels))) := by
  have hone : ∀ line ∈ dumpLines labels, OneLine line := by
    refine List.forall_mem_append.2 ⟨?_, oneLine_labelItems 0 hlines⟩
    decide +kernel
  rw [lines_terminated hone]
  exact .mk frontLines_written (labelItems_written 0 hnames)

end Cutting

section Written

/-- The lines of a tag item. Without a number it begins with another line. -/
def writtenTagLines : WrittenTag → List Text
  | ⟨some value, group⟩ =>
    [lineOf 4 true tagIndexKey value]
      ++ (group.map fun value => lineOf 6 false groupKey value).toList
      ++ [lineOf 6 false "tagPatternID:" "0"]
  | ⟨none, group⟩ =>
    [lineOf 4 true "tagPatternID:" "0"]
      ++ (group.map fun value => lineOf 6 false groupKey value).toList

def writtenLabelLines (place : Nat) (written : WrittenLabel) : List Text :=
  nameLines place written.name
    ++ [lineOf 4 false tagArrayKey (if written.items = [] then "[]" else [])]
    ++ (written.items.map writtenTagLines).flatten
    ++ [lineOf 4 false wordArrayKey []]
    ++ (written.words.map wordLines).flatten

def writtenItems : Nat → List WrittenLabel → List (List Text)
  | _, [] => []
  | place, written :: labels => writtenLabelLines place written :: writtenItems (place + 1) labels

def writtenLines (labels : List WrittenLabel) : List Text :=
  frontLines ++ (writtenItems 0 labels).flatten

/-- The name and the values of the tag items have no blanks around them. -/
def WrittenLabel.Trimmed (written : WrittenLabel) : Prop :=
  trim written.name = written.name ∧ ∀ item ∈ written.items,
    (∀ value ∈ item.number, trim value = value) ∧ ∀ value ∈ item.group, trim value = value

instance (written : WrittenLabel) : Decidable written.Trimmed :=
  inferInstanceAs (Decidable (_ ∧ _))

theorem writtenTagLines_written {item : WrittenTag}
    (h : (∀ value ∈ item.number, trim value = value) ∧ ∀ value ∈ item.group, trim value = value) :
    WrittenTagLines item (writtenTagLines item) := by
  obtain ⟨number, group⟩ := item
  obtain ⟨hnumber, hgroup⟩ := h
  refine ⟨_, .refl _, ?_⟩
  have hgroupLines : ItemLines TagText.field false (group.map .group).toList
      (group.map fun value => lineOf 6 false groupKey value).toList := by
    rcases group with _ | value
    · exact .done
    · exact .field (fieldLine_lineOf 6 false groupKey (hgroup value rfl)) .done
  rcases number with _ | value
  · exact .other (otherLine_lineOf 4 true (by decide +kernel) _) hgroupLines
  · have hpattern : ItemLines TagText.field false [] [lineOf 6 false "tagPatternID:" "0"] :=
      .other (otherLine_lineOf 6 false (by decide +kernel) _) .done
    have hrest := itemLines_append hgroupLines hpattern
    rw [List.append_nil] at hrest
    exact .field (fieldLine_lineOf 4 true tagIndexKey (hnumber value rfl)) hrest

theorem writtenLabelLines_written (place : Nat) {written : WrittenLabel} (h : written.Trimmed) :
    WrittenLabelLines written (writtenLabelLines place written) := by
  have htags : HeadLines tagArrayKey
      [lineOf 4 false tagArrayKey (if written.items = [] then "[]" else [])] := by
    refine headLines_lineOf 4 ?_ (by simp)
    split <;> decide
  have hitems : List.Forall₂ WrittenTagLines written.items (written.items.map writtenTagLines) := by
    rw [List.forall₂_map_right_iff, List.forall₂_same]
    exact fun item hitem => writtenTagLines_written (h.2 item hitem)
  have hwords : HeadLines wordArrayKey [lineOf 4 false wordArrayKey []] :=
    headLines_lineOf 4 rfl (by simp)
  exact .mk (nameLines_written place h.1) htags hitems hwords (forall₂_map wordLines_written _)

theorem writtenItems_written : ∀ (place : Nat) {labels : List WrittenLabel},
    (∀ written ∈ labels, written.Trimmed) →
      List.Forall₂ WrittenLabelLines labels (writtenItems place labels)
  | _, [], _ => .nil
  | place, written :: labels, h => by
    obtain ⟨hwritten, hlabels⟩ := List.forall_mem_cons.1 h
    exact .cons (writtenLabelLines_written place hwritten)
      (writtenItems_written (place + 1) hlabels)

theorem writtenLines_written {labels : List WrittenLabel}
    (htrimmed : ∀ written ∈ labels, written.Trimmed)
    (hone : ∀ line ∈ writtenLines labels, OneLine line) :
    WrittenDump .table labels (lines (terminated (writtenLines labels))) := by
  rw [lines_terminated hone]
  exact .mk frontLines_written (writtenItems_written 0 htrimmed)

end Written

end Dialogue.Dump
