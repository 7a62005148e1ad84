import Dialogue.Proofs.DumpWriting
import Dialogue.Proofs.ItemReading
import Dialogue.Proofs.Tables
import Dialogue.Proofs.Tokens

/-!
# A dump of labels is decoded to their texts

Labels are stored one after the other, each when it is closed (`readLines_labels`), so a dump of
labels decodes to the table of their texts (`decode_of_dumpLines`).
-/

namespace Dialogue.Dump

open Text

/-- The messages have the keys and the texts of the table in its order, and each is the message of
its text. -/
def Spells (messages : Messages) (table : Table Text Text) : Prop :=
  messages.entries.map (fun entry => (entry.1, entry.2.text)) = table.entries
    ∧ ∀ entry ∈ messages.entries, Message.ofText entry.2.text = .ok entry.2

theorem spells_empty : Spells ∅ ∅ := ⟨rfl, fun _ hmem => absurd hmem List.not_mem_nil⟩

theorem map_insertInto (key : Text) (message : Message) : ∀ entries : List (Text × Message),
    (Table.insertInto key message entries).map (fun entry => (entry.1, entry.2.text))
      = Table.insertInto key message.text (entries.map fun entry => (entry.1, entry.2.text))
  | [] => rfl
  | (other, old) :: entries => by
    simp only [Table.insertInto, List.map_cons]
    split
    · rfl
    · rw [List.map_cons, map_insertInto key message entries]

theorem text_of_ofText {text : Text} {message : Message} (h : Message.ofText text = .ok message) :
    message.text = text := by
  unfold Message.ofText at h
  rcases hsegments : Message.tokenize text with e | segments <;> rw [hsegments] at h
  · cases h
  · cases h
    rfl

/-- A closed label is stored unless its name or its text is empty. -/
theorem close_of_label {draft : Draft} {label : Label} {table : Table Text Text}
    (hspells : Spells draft.messages table) (hname : draft.label = label.name)
    (htext : draft.text = label.text) (hcut : ∃ message, Message.ofText label.text = .ok message) :
    ∃ messages, draft.close = .ok messages
      ∧ Spells messages (table.insertAll label.entry?.toList) := by
  rw [Draft.close_eq, Draft.stored, hname, htext, Label.entry?]
  by_cases h : label.name = [] ∨ label.text = []
  · rw [if_pos h, if_pos h]
    exact ⟨draft.messages, rfl, hspells⟩
  · obtain ⟨message, hof⟩ := hcut
    have heq := text_of_ofText hof
    rw [if_neg h, if_neg h, hof]
    refine ⟨draft.messages.insert (Text.lower label.name) message, rfl, ?_, ?_⟩
    · rw [← heq]
      change List.map _ (Table.insertInto _ message draft.messages.entries) = _
      rw [map_insertInto, hspells.1]
      rfl
    · rw [← heq] at hof
      exact Table.forall_mem_insertInto (p := fun m => Message.ofText m.text = .ok m) _ hof
        hspells.2

/-- From the name of a label on, the labels are stored in their order. -/
theorem readLines_written : ∀ {labels : List WrittenLabel} {items : List (List Text)},
    List.Forall₂ WrittenLabelLines labels items → (∀ line ∈ items.flatten, ReadsNumbers line) →
    (∀ written ∈ labels, ∃ message, Message.ofText written.label.text = .ok message) →
    ∀ {state : State}, state = .labels ∨ state = .words →
    ∀ {draft : Draft} {messages : Messages} {table : Table Text Text},
      draft.close = .ok messages → Spells messages table →
      ∃ result, readLines state draft (items.flatten.map Line.ofText) = .ok result
        ∧ Spells result (table.insertAll (labels.filterMap fun written => written.label.entry?))
  | _, _, .nil, _, _, _, _, _, messages, _, hclose, hspells => ⟨messages, hclose, hspells⟩
  | written :: labels, lines :: items, .cons hitem hitems, hread, hcuts, state, hs, draft, messages,
      table, hclose, hspells => by
    simp only [List.flatten_cons, List.mem_append, or_imp, forall_and] at hread
    obtain ⟨hcut, hrest⟩ := List.forall_mem_cons.1 hcuts
    obtain ⟨opened, hfeed, rfl, hname, hopen⟩ := feed_writtenLabel hs hitem hread.1 hclose
    obtain ⟨closed, hclosed, hstored⟩ := close_of_label hspells hname hopen hcut
    obtain ⟨result, hresult, htable⟩ :=
      readLines_written hitems hread.2 hrest (.inr rfl) hclosed hstored
    refine ⟨result, ?_, ?_⟩
    · rw [List.flatten_cons, List.map_append, readLines_append, hfeed]
      exact hresult
    · rw [List.filterMap_cons]
      rcases hentry : written.label.entry? with _ | entry
      · rw [hentry] at htable
        exact htable
      · rw [hentry] at htable
        exact htable

theorem readLines_labels {labels : List Label} {items : List (List Text)}
    (hitems : List.Forall₂ LabelLines labels items)
    (hruns : ∀ line ∈ items.flatten, ShortRuns line)
    (htexts : ∀ label ∈ labels, ShortRuns label.text) {state : State}
    (hs : state = .labels ∨ state = .words) {draft : Draft} {messages : Messages}
    {table : Table Text Text} (hclose : draft.close = .ok messages)
    (hspells : Spells messages table) :
    ∃ result, readLines state draft (items.flatten.map Line.ofText) = .ok result
      ∧ Spells result (table.insertAll (labels.filterMap Label.entry?)) := by
  have hread := fun line hline => readsNumbers_of_shortRuns (hruns line hline)
  obtain ⟨written, rfl, hlines⟩ := exists_written hitems hread
  have hcuts : ∀ w ∈ written, ∃ message, Message.ofText w.label.text = .ok message := by
    intro w hw
    obtain ⟨message, hof, -⟩ := Message.ofText_of_shortRuns (htexts _ (List.mem_map_of_mem hw))
    exact ⟨message, hof⟩
  rw [List.filterMap_map]
  exact readLines_written hlines hread hcuts hs hclose hspells

theorem handle_outside {line : Text} (h : Lacks labelArrayKey line) (draft : Draft) :
    State.outside.handle draft (Line.ofText line) = (draft, .ok ⟨.outside, true⟩) := by
  simp only [State.handle, outsideLine, hasKey_of_lacks h]
  rfl

theorem handle_labels {line : Text}
    (h : ∀ key ∈ [labelNameKey, tagArrayKey, wordArrayKey], Lacks key line) (draft : Draft) :
    State.labels.handle draft (Line.ofText line) = (draft, .ok ⟨.labels, true⟩) := by
  have hname := Line.value?_eq_none.2 (hasKey_of_lacks (h labelNameKey (by simp)))
  have htags := hasKey_of_lacks (h tagArrayKey (by simp))
  have hwords := hasKey_of_lacks (h wordArrayKey (by simp))
  simp only [State.handle, labelLine, hname, htags, hwords]
  rfl

theorem feed_frontLines {layout : Layout} {lines : List Text} (h : FrontLines layout lines) :
    feed layout.start {} (lines.map Line.ofText) = .ok (.labels, {}) := by
  cases h with
  | table hfront hhead =>
    have hskip := feed_skipped fun line hmem => handle_outside (hfront line hmem) {}
    have hmark := feed_head hhead (by simp [Line.keys]) fun line hline =>
      handle_labelArray hline {}
    rw [List.map_append]
    exact (feed_append_of_eq hskip _).trans hmark
  | labelList hfront => exact feed_skipped fun line hmem => handle_labels (hfront line hmem) {}

theorem occursIn_of_frontLines {text : Text} {front rest : List Text}
    (h : FrontLines .table front) (hlines : lines text = front ++ rest) :
    occursIn labelArrayKey text = true := by
  obtain ⟨-, value, line, others, rfl, ⟨indent, tail, -, rfl, -⟩, -⟩ := h
  refine occursIn_of_isInfix (List.IsInfix.trans ?_ ((infix_of_lines text).2
    (indent ++ dash false ++ labelArrayKey ++ tail) ?_))
  · exact ⟨indent ++ dash false, tail, rfl⟩
  · rw [hlines]
    simp

/-- Behind what stands before the labels a dump is read as a list of labels. -/
theorem decode_of_front {layout : Layout} {text : Text} {front rest : List Text}
    (h : FrontLines layout front) (hlines : lines text = front ++ rest) : decode layout text
      = (readLines .labels {} (rest.map Line.ofText)).mapError .overlong := by
  have hmark : ¬ (layout = .table ∧ (!occursIn labelArrayKey text) = true) := by
    rintro ⟨rfl, hno⟩
    rw [occursIn_of_frontLines h hlines] at hno
    cases hno
  rw [decode, if_neg hmark, hlines, List.map_append, readLines_append, feed_frontLines h]
  rfl

theorem decode_of_written {layout : Layout} {labels : List WrittenLabel} {text : Text}
    (h : WrittenDump layout labels (lines text)) (hnumbers : ∀ line ∈ lines text, ReadsNumbers line)
    (hcuts : ∀ written ∈ labels, ∃ message, Message.ofText written.label.text = .ok message) :
    ∃ messages, decode layout text = .ok messages
      ∧ Spells messages (Table.ofList (labels.filterMap fun written => written.label.entry?)) := by
  generalize hlines : lines text = all at h hnumbers
  obtain ⟨hfront, hitems⟩ := h
  have hclose : ({} : Draft).close = .ok ∅ := rfl
  obtain ⟨messages, hread, hspells⟩ := readLines_written hitems
    (fun line hline => hnumbers line (List.mem_append_right _ hline)) hcuts (.inl rfl) hclose
    spells_empty
  refine ⟨messages, ?_, hspells⟩
  rw [decode_of_front hfront hlines, hread]
  rfl

/-- A dump of labels decodes to the table of their texts, unless some run of digits in it or in a
text is too long to be read. -/
theorem decode_of_dumpLines {layout : Layout} {labels : List Label} {text : Text}
    (h : DumpLines layout labels (lines text)) (hruns : ShortRuns text)
    (htexts : ∀ label ∈ labels, ShortRuns label.text) :
    ∃ messages, decode layout text = .ok messages
      ∧ Spells messages (Table.ofList (labels.filterMap Label.entry?)) := by
  generalize hlines : lines text = all at h
  obtain ⟨hfront, hitems⟩ := h
  rename_i front items
  have hmem : ∀ line ∈ items.flatten, ShortRuns line := by
    intro line hline
    refine hruns.of_isInfix ((infix_of_lines text).2 line ?_)
    rw [hlines]
    exact List.mem_append_right front hline
  have hclose : ({} : Draft).close = .ok ∅ := rfl
  obtain ⟨messages, hread, hspells⟩ :=
    readLines_labels hitems hmem htexts (.inl rfl) hclose spells_empty
  refine ⟨messages, ?_, hspells⟩
  rw [decode_of_front hfront hlines, hread]
  rfl

theorem readsNumbers_of_length {labels : List WrittenLabel}
    (hone : ∀ line ∈ writtenLines labels, OneLine line)
    (hlength : ∀ line ∈ writtenLines labels, line.length ≤ maxDigits) :
    ∀ line ∈ lines (terminated (writtenLines labels)), ReadsNumbers line := by
  rw [lines_terminated hone]
  exact fun line hline => readsNumbers_of_shortRuns (shortRuns_of_length (hlength line hline))

/-- Labels with a listed tag, a tag index beyond the list, an empty text and a name that comes
twice. -/
def shopLabels : List Label :=
  [{ name := "Shop".toList, words := [{ literal := some "x".toList }] },
    { name := "Greet".toList, tags := [⟨7, some (-2)⟩, ⟨5, none⟩],
      words := [{ literal := some "Hi ".toList, event := some 0, tagIndex := some 0 },
        { event := some 3, tagIndex := some 9 }] },
    { name := "Empty".toList, words := [{ event := some 2 }] },
    { name := "SHOP".toList, words := [{ literal := some " ok ".toList }] }]

theorem decode_of_dumpLines_shop :
    DumpLines .table shopLabels (lines (terminated (dumpLines shopLabels)))
      ∧ ShortRuns (terminated (dumpLines shopLabels))
      ∧ (∀ label ∈ shopLabels, ShortRuns label.text)
      ∧ (Table.ofList (shopLabels.filterMap Label.entry?)).entries
        = [("shop".toList, " ok \x7bn\x7d".toList),
          ("greet".toList, "Hi \x7b7:-2\x7d\x7b9:1\x7d\x7br\x7d".toList)]
      ∧ ∃ messages, decode .table (terminated (dumpLines shopLabels)) = .ok messages
        ∧ Spells messages (Table.ofList (shopLabels.filterMap Label.entry?)) := by
  have hdump : DumpLines .table shopLabels (lines (terminated (dumpLines shopLabels))) :=
    dumpLines_written (by decide +kernel) (by decide +kernel)
  have hruns : ShortRuns (terminated (dumpLines shopLabels)) :=
    shortRuns_of_length (by decide +kernel)
  have htexts : ∀ label ∈ shopLabels, ShortRuns label.text := by
    have hlen : ∀ label ∈ shopLabels, label.text.length ≤ maxDigits := by decide +kernel
    exact fun label hmem => shortRuns_of_length (hlen label hmem)
  exact ⟨hdump, hruns, htexts, by decide +kernel, decode_of_dumpLines hdump hruns htexts⟩

end Dialogue.Dump
