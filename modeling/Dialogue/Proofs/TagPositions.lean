import Dialogue.Proofs.DumpReading

/-!
# What a tag index points at

A tag index is a position in the tag list, but items without a number are not kept in the list, so
it counts those that have one (`WrittenLabel.PointsAt`). What a word adds to the text of its label
is told from the item that its index points at (`decode_of_pointed`). An index points at the item of
its own position exactly if all items in front of that have a number; others do occur
(`not_position_of_unnumbered`).
-/

namespace Dialogue.Dump

open Text

/-- An element of a filtered list stands behind as many others as are kept in front of it. -/
theorem getElem?_filterMap_iff {α β : Type} {f : α → Option β} :
    ∀ {list : List α} {i : Nat} {b : β}, (list.filterMap f)[i]? = some b
      ↔ ∃ place a, list[place]? = some a ∧ f a = some b ∧ ((list.take place).filterMap f).length = i
  | [], i, b => by simp
  | x :: list, i, b => by
    have ih := fun i => @getElem?_filterMap_iff α β f list i b
    rw [← Nat.or_exists_add_one]
    simp only [List.getElem?_cons_zero, List.getElem?_cons_succ, List.take_zero,
      List.filterMap_nil, List.length_nil, List.take_succ_cons]
    -- a dropped element moves the others on by a place only, a kept one by an index as well
    rcases hx : f x with _ | y
    · simp only [List.filterMap_cons_none hx, ih]
      constructor
      · exact .inr
      · rintro (⟨a, ha, hb, -⟩ | h)
        · obtain rfl := Option.some.inj ha
          rw [hx] at hb
          cases hb
        · exact h
    · simp only [List.filterMap_cons_some hx, List.length_cons]
      cases i with
      | zero =>
        rw [List.getElem?_cons_zero, ← hx]
        constructor
        · exact fun h => .inl ⟨x, rfl, h, rfl⟩
        · rintro (⟨a, ha, hb, -⟩ | ⟨place, a, -, -, h⟩)
          · obtain rfl := Option.some.inj ha
            exact hb
          · cases h
      | succ i =>
        rw [List.getElem?_cons_succ, ih]
        simp only [Nat.add_right_cancel_iff]
        constructor
        · exact .inr
        · rintro (⟨a, -, -, h⟩ | h)
          · cases h
          · exact h

/-- The text that a word adds with a placeholder: its literal, the placeholder, and the flow mark of
its event. -/
def Word.around (word : Word) (placeholder : Text) : Text :=
  word.literal.getD [] ++ placeholder
    ++ ((Flow.ofEvent? word.event word.literal.isSome).map Flow.token).getD []

namespace WrittenLabel

variable {written : WrittenLabel} {index place : Nat} {tag : ListedTag}

/-- A tag index points at an item of the tag list that has a number, if as many items in front of it
have one. -/
def PointsAt (written : WrittenLabel) (index place : Nat) (tag : ListedTag) : Prop :=
  ∃ item, written.items[place]? = some item ∧ item.listed? = some tag
    ∧ ((written.items.take place).filterMap WrittenTag.listed?).length = index

theorem getElem?_tags_iff : written.label.tags[index]? = some tag
    ↔ ∃ place, written.PointsAt index place tag :=
  getElem?_filterMap_iff

theorem placeholder_of_pointsAt (h : written.PointsAt index place tag) :
    written.label.placeholder index = tag.tag.token := by
  have hlisted : written.label.tags[index]? = some tag := getElem?_tags_iff.2 ⟨place, h⟩
  rw [Label.placeholder, List.getElem?_map, hlisted]
  rfl

theorem placeholder_of_not_pointsAt (h : ∀ place tag, ¬ written.PointsAt index place tag) :
    written.label.placeholder index = Tag.token ⟨index, defaultGroup⟩ := by
  have hlisted : written.label.tags[index]? = none := by
    rw [Option.eq_none_iff_forall_ne_some]
    intro tag htag
    obtain ⟨place, hplace⟩ := getElem?_tags_iff.1 htag
    exact h place tag hplace
  rw [Label.placeholder, List.getElem?_map, hlisted]
  rfl

theorem PointsAt.eq_place_iff (h : written.PointsAt index place tag) :
    index = place ↔ ∀ item ∈ written.items.take place, item.listed?.isSome = true := by
  obtain ⟨item, hitem, -, hlength⟩ := h
  have hplace : (written.items.take place).length = place :=
    List.length_take_of_le (Nat.le_of_lt (List.getElem?_eq_some_iff.1 hitem).1)
  have hcount := @List.filterMap_length_eq_length _ _ WrittenTag.listed? (written.items.take place)
  rw [hplace, hlength] at hcount
  exact hcount

theorem wordText_of_index {word : Word} (h : word.tagIndex = some index) :
    written.label.wordText word = word.around (written.label.placeholder index) := by
  rw [Label.wordText, h]
  rfl

end WrittenLabel

/-- A dump decodes to the texts of its labels, and there the tag index of a word stands for the item
with a number that has as many such items in front of it, which is the one at this position exactly
if all items in front of it have a number. -/
theorem decode_of_pointed {layout : Layout} {labels : List WrittenLabel} {text : Text}
    (h : WrittenDump layout labels (lines text)) (hnumbers : ∀ line ∈ lines text, ReadsNumbers line)
    (hcuts : ∀ written ∈ labels, ∃ message, Message.ofText written.label.text = .ok message) :
    ∃ messages, decode layout text = .ok messages
      ∧ Spells messages (Table.ofList (labels.filterMap fun written => written.label.entry?))
      ∧ ∀ written ∈ labels, ∀ word ∈ written.words, ∀ index, word.tagIndex = some index →
        (∀ place tag, written.PointsAt index place tag →
          written.label.wordText word = word.around tag.tag.token
            ∧ (index = place
              ↔ ∀ item ∈ written.items.take place, item.listed?.isSome = true))
        ∧ ((∀ place tag, ¬ written.PointsAt index place tag) →
          written.label.wordText word = word.around (Tag.token ⟨index, defaultGroup⟩)) := by
  obtain ⟨messages, hdecode, hspells⟩ := decode_of_written h hnumbers hcuts
  refine ⟨messages, hdecode, hspells, fun written _ word _ index hindex => ⟨?_, ?_⟩⟩
  · intro place tag hpoints
    refine ⟨?_, hpoints.eq_place_iff⟩
    rw [WrittenLabel.wordText_of_index hindex, WrittenLabel.placeholder_of_pointsAt hpoints]
  · intro hnone
    rw [WrittenLabel.wordText_of_index hindex, WrittenLabel.placeholder_of_not_pointsAt hnone]

/-- A label with items that have a negative number, none, and something else. -/
def gappedLabel : WrittenLabel where
  name := "Intro"
  items := [⟨some "7", some "2"⟩, ⟨some "-1", some "1"⟩, ⟨none, some "3"⟩, ⟨some "x", none⟩,
    ⟨some "9", none⟩]
  words := [{ literal := some "Hi ".toList, event := some 0, tagIndex := some 0 },
    { event := some 1, tagIndex := some 1 }, { event := some 0, tagIndex := some 4 }]

theorem decode_of_pointed_gapped :
    WrittenDump .table [gappedLabel] (lines (terminated (writtenLines [gappedLabel])))
      ∧ (∀ line ∈ lines (terminated (writtenLines [gappedLabel])), ReadsNumbers line)
      ∧ (∃ message, Message.ofText gappedLabel.label.text = .ok message)
      ∧ gappedLabel.PointsAt 1 4 ⟨9, none⟩
      ∧ gappedLabel.label.text = "Hi \x7b7:2\x7d\x7b9:1\x7d\x7bn\x7d\x7b4:1\x7d".toList
      ∧ ∃ messages, decode .table (terminated (writtenLines [gappedLabel])) = .ok messages
        ∧ Spells messages (Table.ofList [("intro".toList, gappedLabel.label.text)])
        ∧ gappedLabel.label.wordText { event := some 1, tagIndex := some 1 }
          = Word.around { event := some 1, tagIndex := some 1 } (Tag.token ⟨9, 1⟩) := by
  have hone : ∀ line ∈ writtenLines [gappedLabel], OneLine line := by decide +kernel
  have hdump : WrittenDump .table [gappedLabel] (lines (terminated (writtenLines [gappedLabel]))) :=
    writtenLines_written (by decide +kernel) hone
  have hnumbers := readsNumbers_of_length hone (by decide +kernel)
  have hcut : ∃ message, Message.ofText gappedLabel.label.text = .ok message :=
    Message.ofText_of_length (by decide +kernel)
  have hpoints : gappedLabel.PointsAt 1 4 ⟨9, none⟩ :=
    ⟨⟨some "9", none⟩, rfl, by decide +kernel, by decide +kernel⟩
  obtain ⟨messages, hdecode, hspells, hwords⟩ := decode_of_pointed hdump hnumbers
    (List.forall_mem_singleton.2 hcut)
  have hentry : [gappedLabel].filterMap (fun written => written.label.entry?)
      = [("intro".toList, gappedLabel.label.text)] := by decide +kernel
  rw [hentry] at hspells
  refine ⟨hdump, hnumbers, hcut, hpoints, by decide +kernel, messages, hdecode,
    hspells, ?_⟩
  exact ((hwords gappedLabel (by simp) { event := some 1, tagIndex := some 1 } (by decide +kernel) 1
    rfl).1 4 ⟨9, none⟩ hpoints).1

/-- A label whose first item has a negative number. -/
def shiftedLabel : WrittenLabel where
  name := "a"
  items := [⟨some "-1", some "1"⟩, ⟨some "7", some "2"⟩, ⟨some "9", some "1"⟩]
  words := [{ event := some 0, tagIndex := some 1 }]

/-- A tag index does not always point at the item of its position. -/
theorem not_position_of_unnumbered :
    ¬ ∀ (written : WrittenLabel) (text : Text) (messages : Messages),
      WrittenDump .table [written] (lines text) → decode .table text = .ok messages →
        ∀ index item tag, written.words = [{ event := some 0, tagIndex := some index }] →
          written.items[index]? = some item → item.listed? = some tag →
            ∀ entry ∈ messages.entries, entry.2.text = tag.tag.token := by
  intro h
  have hone : ∀ line ∈ writtenLines [shiftedLabel], OneLine line := by decide +kernel
  have hdump := writtenLines_written (by decide +kernel) hone
  have hnumbers := readsNumbers_of_length hone (by decide +kernel)
  have hcut : ∃ message, Message.ofText shiftedLabel.label.text = .ok message :=
    Message.ofText_of_length (by decide +kernel)
  obtain ⟨messages, hdecode, hspells⟩ := decode_of_written hdump hnumbers
    (List.forall_mem_singleton.2 hcut)
  have htable :
      (Table.ofList ([shiftedLabel].filterMap fun written => written.label.entry?)).entries
        = [("a".toList, "\x7b9:1\x7d".toList)] := by decide +kernel
  obtain ⟨entry, hentry, hspelled⟩ := List.map_eq_singleton_iff.1 (hspells.1.trans htable)
  have hclaimed := h shiftedLabel _ messages hdump hdecode 1 ⟨some "7", some "2"⟩ ⟨7, some 2⟩ rfl
    rfl (by decide +kernel) entry (by simp [hentry])
  rw [(Prod.mk.inj hspelled).2] at hclaimed
  exact absurd hclaimed (by decide +kernel)

end Dialogue.Dump
