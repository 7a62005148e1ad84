import Dialogue.Proofs.Digits
import Dialogue.Proofs.DumpText
import Mathlib.Data.List.Nodup

/-!
# Reading the items of a dump

A line between the fields of an item only opens the item, if it has the dash, and each field is
taken as it comes, so an item is read like the list of its fields (`feed_item`), in whatever order
these stand (`foldl_take_perm`). A tag item leaves its tag pending, if it has a number, and a word
item its word; what is pending is added by whatever comes next. A label's item closes the label
before it (`feed_writtenLabel`).
-/

namespace Dialogue.Dump

open Text

section Lines

theorem ofText_of_fieldLine {opens : Bool} {key value line : Text} (hkey : key ∈ Line.keys)
    (h : FieldLine opens (key, value) line) :
    (Line.ofText line).opensItem = opens ∧ (Line.ofText line).value? key = some value := by
  obtain ⟨indent, tail, hindent, rfl, hvalue⟩ := h
  have hline : Line.ofText (indent ++ dash opens ++ key ++ tail)
      = ⟨key ++ trimEnd tail, opens⟩ := by
    simp only [Line.ofText, trim_line opens (isKey_of_mem hkey) hindent]
    cases opens with
    | true => rfl
    | false =>
      obtain ⟨c, mid, d, rfl, -, hc, -⟩ := key_eq (isKey_of_mem hkey)
      simp only [dash, List.nil_append, List.cons_append]
      split
      · rename_i heq
        exact absurd (List.cons.inj heq).1 hc
      · rename_i heq
        exact absurd (List.cons.inj heq).1 hc
      · rfl
  rw [hline]
  exact ⟨rfl, Line.value?_eq_some.2 ⟨trimEnd tail, rfl, by rw [trim_trimEnd]; exact hvalue⟩⟩

theorem hasKey_of_fieldLine {opens : Bool} {field : Field} {line other : Text}
    (hkey : field.1 ∈ Line.keys) (h : FieldLine opens field line) (hother : other ∈ Line.keys)
    (hne : field.1 ≠ other) : (Line.ofText line).hasKey other = false :=
  Line.hasKey_eq_false hkey hother (Line.hasKey_of_value? (ofText_of_fieldLine hkey h).2) hne

theorem opensItem_iff (line : Text) :
    (Line.ofText line).opensItem = true ↔ ['-'] <+: trim line := by
  unfold Line.ofText
  simp only
  split
  · rename_i rest heq
    simp [heq]
  · rename_i rest _ heq
    simp [heq]
  · rename_i hnot hnot'
    simp only [Bool.false_eq_true, false_iff]
    rintro ⟨rest, hrest⟩
    exact hnot' rest hrest.symm

theorem hasKey_of_lacks {key line : Text} (h : Lacks key line) :
    (Line.ofText line).hasKey key = false := by
  rw [← Bool.not_eq_true, Line.hasKey_iff]
  intro hp
  unfold Line.ofText at hp
  simp only at hp
  split at hp
  · rename_i rest heq
    refine h.2 ?_
    rw [heq]
    exact (List.prefix_append_right_inj (dash true)).2 hp
  · exact h.1 hp
  · exact h.1 hp

theorem ofText_of_otherLine {opens : Bool} {line : Text} (h : OtherLine opens line) :
    (Line.ofText line).opensItem = opens
      ∧ ∀ key ∈ Line.keys, (Line.ofText line).hasKey key = false := by
  refine ⟨?_, fun key hkey => hasKey_of_lacks (h.2 key hkey)⟩
  rw [Bool.eq_iff_iff, opensItem_iff]
  exact h.1

end Lines

section Feeding

/-- What the line in front of an item does to the draft before its own field is taken. -/
def Draft.opened (draft : Draft) : State → Bool → Draft
  | .tags, true => draft.flushTag
  | .words, true => draft.commitWord
  | _, _ => draft

theorem Draft.opened_false (draft : Draft) : ∀ state, draft.opened state false = draft
  | .outside | .labels | .tags | .words => rfl

theorem feed_cons {state next : State} {draft draft' : Draft} {line : Line}
    (h : state.handle draft line = (draft', .ok ⟨next, true⟩)) (rest : List Line) :
    feed state draft (line :: rest) = feed next draft' rest := by
  simp only [feed, maxReadings, readLine, h, if_true]

/-- Past a line without a key nothing changes but that it may open an item. -/
theorem handle_otherLine {opens : Bool} {line : Text} (h : OtherLine opens line) (state : State)
    (draft : Draft) :
    state.handle draft (Line.ofText line) = (draft.opened state opens, .ok ⟨state, true⟩) := by
  obtain ⟨hopens, hkeys⟩ := ofText_of_otherLine h
  simp only [Line.keys, List.forall_mem_cons] at hkeys
  obtain ⟨harray, hname, htags, hindex, hgroup, hwords, hliteral, hevent, -⟩ := hkeys
  cases state with
  | outside =>
    simp only [State.handle, outsideLine, harray]
    rfl
  | labels =>
    simp only [State.handle, labelLine, Line.value?_eq_none.2 hname, htags, hwords]
    rfl
  | tags =>
    simp only [State.handle, tagLine, tagField, hwords, hname, Line.value?_eq_none.2 hindex,
      Line.value?_eq_none.2 hgroup, hopens]
    cases opens <;> rfl
  | words =>
    simp only [State.handle, wordLine, wordField, htags, hname, Line.value?_eq_none.2 hindex,
      Line.value?_eq_none.2 hliteral, Line.value?_eq_none.2 hevent, hopens]
    cases opens <;> rfl

theorem feed_skipped {state : State} {draft : Draft} : ∀ {lines : List Text},
    (∀ line ∈ lines, state.handle draft (Line.ofText line) = (draft, .ok ⟨state, true⟩)) →
      feed state draft (lines.map Line.ofText) = .ok (state, draft)
  | [], _ => rfl
  | line :: lines, h => by
    obtain ⟨hline, hlines⟩ := List.forall_mem_cons.1 h
    rw [List.map_cons, feed_cons hline, feed_skipped hlines]

theorem feed_others (state : State) (draft : Draft) {lines : List Text}
    (h : ∀ line ∈ lines, OtherLine false line) :
    feed state draft (lines.map Line.ofText) = .ok (state, draft) := by
  refine feed_skipped fun line hmem => ?_
  rw [handle_otherLine (h line hmem), Draft.opened_false]

theorem feed_append_of_eq {state next : State} {draft draft' : Draft} {first : List Line}
    (h : feed state draft first = .ok (next, draft')) (second : List Line) :
    feed state draft (first ++ second) = feed next draft' second := by
  rw [feed_append, h]
  rfl

/-- A head is one line that is handled and others. -/
theorem feed_head {state next : State} {draft draft' : Draft} {key : Text} {lines : List Text}
    (h : HeadLines key lines) (hkey : key ∈ Line.keys)
    (hhandle : ∀ line : Line, line.hasKey key = true →
      state.handle draft line = (draft', .ok ⟨next, true⟩)) :
    feed state draft (lines.map Line.ofText) = .ok (next, draft') := by
  obtain ⟨value, line, rest, rfl, hline, hrest⟩ := h
  obtain ⟨-, hvalue⟩ := ofText_of_fieldLine hkey hline
  rw [List.map_cons, feed_cons (hhandle _ (Line.hasKey_of_value? hvalue))]
  exact feed_others next draft' hrest

/-- If a state takes each field of an item alike, it takes the item's fields one after the other,
whatever stands between them. -/
theorem feed_item {φ : Type} {field : φ → Field} {state : State} {take : Draft → φ → Draft}
    (htake : ∀ {opens f line}, FieldLine opens (field f) line → ReadsNumbers line → ∀ draft,
      state.handle draft (Line.ofText line)
        = (take (draft.opened state opens) f, .ok ⟨state, true⟩))
    {opens : Bool} {fields : List φ} {lines : List Text} (h : ItemLines field opens fields lines)
    (hread : ∀ line ∈ lines, ReadsNumbers line) (draft : Draft) :
    feed state draft (lines.map Line.ofText)
      = .ok (state, fields.foldl take (draft.opened state opens)) := by
  induction h generalizing draft with
  | done => rw [Draft.opened_false]; rfl
  | field hline _ ih =>
    have hrest := ih fun line hmem => hread line (by simp [hmem])
    rw [List.map_cons, feed_cons (htake hline (hread _ (by simp)) draft), hrest,
      Draft.opened_false, List.foldl_cons]
  | other hline _ ih =>
    have hrest := ih fun line hmem => hread line (by simp [hmem])
    rw [List.map_cons, feed_cons (handle_otherLine hline state draft), hrest, Draft.opened_false]

/-- If fields of different keys can be taken in either order, the order of an item's fields does not
matter. -/
theorem foldl_take_perm {φ : Type} {field : φ → Field} {take : Draft → φ → Draft}
    (hcomm : ∀ draft x y, (field x).1 ≠ (field y).1 →
      take (take draft x) y = take (take draft y) x)
    {fields written : List φ} (hperm : fields.Perm written)
    (hkeys : (written.map fun f => (field f).1).Nodup) (draft : Draft) :
    fields.foldl take draft = written.foldl take draft := by
  refine hperm.foldl_eq' (fun x hx y hy d => ?_) draft
  by_cases h : (field x).1 = (field y).1
  · rw [List.inj_on_of_nodup_map hkeys (hperm.mem_iff.1 hx) (hperm.mem_iff.1 hy) h]
  · exact hcomm d x y h

theorem infix_of_value? {line key value : Text} (h : (Line.ofText line).value? key = some value) :
    value <:+: line := by
  obtain ⟨rest, hclean, rfl⟩ := Line.value?_eq_some.1 h
  have hline : (Line.ofText line).clean <:+: trim line := by
    unfold Line.ofText
    simp only
    split
    · rename_i tail heq
      rw [heq]
      exact (List.suffix_append (dash true) tail).isInfix
    · exact List.infix_refl _
    · exact List.infix_refl _
  have hrest : rest <:+: (Line.ofText line).clean := hclean ▸ (List.suffix_append key rest).isInfix
  exact (trim_isInfix rest).trans (hrest.trans (hline.trans (trim_isInfix line)))

theorem readsNumbers_of_shortRuns {line : Text} (h : ShortRuns line) : ReadsNumbers line :=
  fun _ _ _ hvalue => leadingInt?_of_shortRuns (h.of_isInfix (infix_of_value? hvalue))

end Feeding

section Tags

/-- A value that is no number leaves what is pending as it was. -/
def Draft.takeTag (draft : Draft) : TagText → Draft
  | .number value =>
    { draft with pendingTag := ((integer? value).bind Int.toNat?).or draft.pendingTag }
  | .group value => { draft with pendingGroup := (integer? value).getD draft.pendingGroup }

theorem takeTag_comm (draft : Draft) (x y : TagText) (h : x.field.1 ≠ y.field.1) :
    (draft.takeTag x).takeTag y = (draft.takeTag y).takeTag x := by
  cases x <;> cases y
  · exact absurd rfl h
  · rfl
  · rfl
  · exact absurd rfl h

theorem handle_tagText {opens : Bool} {f : TagText} {line : Text}
    (h : FieldLine opens f.field line) (hread : ReadsNumbers line) (draft : Draft) :
    State.tags.handle draft (Line.ofText line)
      = ((draft.opened .tags opens).takeTag f, .ok ⟨.tags, true⟩) := by
  have hkey : f.field.1 ∈ Line.keys := by cases f <;> simp [TagText.field, Line.keys]
  obtain ⟨hopens, hvalue⟩ := ofText_of_fieldLine hkey h
  have hne : f.field.1 ≠ wordArrayKey ∧ f.field.1 ≠ labelNameKey := by
    cases f <;> simp only [TagText.field] <;> decide
  have hwords := hasKey_of_fieldLine hkey h (by simp [Line.keys]) hne.1
  have hname := hasKey_of_fieldLine hkey h (by simp [Line.keys]) hne.2
  have hdraft : (if opens = true then draft.flushTag else draft) = draft.opened .tags opens := by
    cases opens <;> rfl
  simp only [State.handle, tagLine, hwords, hname, hopens, hdraft, Bool.false_eq_true, if_false]
  cases f with
  | number value =>
    simp only [TagText.field] at hvalue
    obtain ⟨read, hvalueRead⟩ := hread tagIndexKey (by simp) value hvalue
    have hinteger : integer? value = read := by
      rw [integer?, hvalueRead]
      rfl
    simp only [tagField, hvalue, hvalueRead, Draft.takeTag, hinteger]
    rcases read with _ | n | n <;> rfl
  | group value =>
    simp only [TagText.field] at hvalue
    obtain ⟨read, hvalueRead⟩ := hread groupKey (by simp) value hvalue
    have hinteger : integer? value = read := by
      rw [integer?, hvalueRead]
      rfl
    have hindex : (Line.ofText line).hasKey tagIndexKey = false :=
      hasKey_of_fieldLine hkey h (by simp [Line.keys]) (by simp only [TagText.field]; decide)
    simp only [tagField, Line.value?_eq_none.2 hindex, hvalue, hvalueRead, Draft.takeTag, hinteger]
    rcases read with _ | n <;> rfl

/-- A tag item leaves its tag pending, if it has a number. -/
theorem feed_writtenTag {item : WrittenTag} {lines : List Text} (h : WrittenTagLines item lines)
    (hread : ∀ line ∈ lines, ReadsNumbers line) (draft : Draft) :
    ∃ draft', feed .tags draft (lines.map Line.ofText) = .ok (.tags, draft')
      ∧ draft'.flushTag = { draft.flushTag with
        tags := draft.flushTag.tags ++ (item.listed?.map ListedTag.tag).toList } := by
  obtain ⟨fields, hperm, hlines⟩ := h
  have hkeys : (item.fields.map fun f => f.field.1).Nodup := by
    rcases item with ⟨_ | number, _ | group⟩
    · exact List.nodup_nil
    · exact List.nodup_singleton _
    · exact List.nodup_singleton _
    · exact (by decide : [tagIndexKey, groupKey].Nodup)
  refine ⟨_, feed_item handle_tagText hlines hread draft, ?_⟩
  rw [foldl_take_perm takeTag_comm hperm hkeys]
  rcases item with ⟨_ | number, _ | group⟩
  · rfl
  · rfl
  · rcases hid : (integer? number).bind Int.toNat? with _ | id
    all_goals
      simp [WrittenTag.fields, WrittenTag.listed?, Draft.takeTag, Draft.opened, Draft.flushTag, hid,
        ListedTag.tag]
  · rcases hid : (integer? number).bind Int.toNat? with _ | id
    all_goals
      simp [WrittenTag.fields, WrittenTag.listed?, Draft.takeTag, Draft.opened, Draft.flushTag, hid,
        ListedTag.tag]

/-- The tags of the items that have a number are listed in their order once the last item is
done. -/
theorem feed_writtenTags : ∀ {written : List WrittenTag} {items : List (List Text)},
    List.Forall₂ WrittenTagLines written items → (∀ line ∈ items.flatten, ReadsNumbers line) →
      ∀ draft, ∃ draft', feed .tags draft (items.flatten.map Line.ofText) = .ok (.tags, draft')
        ∧ draft'.flushTag = { draft.flushTag with
          tags := draft.flushTag.tags
            ++ (written.filterMap WrittenTag.listed?).map ListedTag.tag }
  | _, _, .nil, _, draft => ⟨draft, rfl, by simp⟩
  | item :: written, lines :: items, .cons hitem hitems, hread, draft => by
    simp only [List.flatten_cons, List.mem_append, or_imp, forall_and] at hread
    obtain ⟨first, hfirst, hflushed⟩ := feed_writtenTag hitem hread.1 draft
    obtain ⟨draft', hfeed, hflush⟩ := feed_writtenTags hitems hread.2 first
    refine ⟨draft', ?_, ?_⟩
    · rw [List.flatten_cons, List.map_append, feed_append_of_eq hfirst, hfeed]
    · rw [hflush, hflushed]
      rcases hlisted : item.listed? with _ | tag
      · simp [hlisted]
      · simp [hlisted]

end Tags

section Words

theorem unquote_of_spelled {literal value : Text} (h : Spelled literal value) :
    unquote value = literal := by
  rcases h with ⟨rfl, -, hbare⟩ | rfl
  · unfold unquote
    split
    · rename_i rest
      split
      · rename_i hlast
        rw [beq_iff_eq] at hlast
        obtain ⟨inner, rfl⟩ := List.getLast?_eq_some_iff.1 hlast
        exact absurd rfl (hbare inner)
      · rfl
    · rfl
  · simp [unquote, enquote]

def Draft.takeWord (draft : Draft) : WordField → Draft
  | .literal value => { draft with word.literal := some (unquote value) }
  | .event n => { draft with word.event := some n }
  | .index (.ofNat i) => { draft with word.tagIndex := some i }
  | .index (.negSucc _) => draft

theorem takeWord_comm (draft : Draft) (x y : WordField) (h : x.field.1 ≠ y.field.1) :
    (draft.takeWord x).takeWord y = (draft.takeWord y).takeWord x := by
  cases x with
  | literal value =>
    cases y with
    | literal other => exact absurd rfl h
    | event m => rfl
    | index m => cases m <;> rfl
  | event n =>
    cases y with
    | literal value => rfl
    | event m => exact absurd rfl h
    | index m => cases m <;> rfl
  | index n =>
    cases y with
    | literal value => cases n <;> rfl
    | event m => cases n <;> rfl
    | index m => exact absurd rfl h

theorem nodup_of_wordFields {word : Word} {written : List WordField} (h : WordFields word written) :
    (written.map fun f => f.field.1).Nodup := by
  rcases word with ⟨literal?, event?, index?⟩
  obtain ⟨hliteral, hindex⟩ := h
  rename_i literal index
  have h1 : (literal.map fun f => f.field.1).Sublist [literalKey] := by
    cases hliteral with
    | none => exact List.nil_sublist _
    | some => exact List.Sublist.refl _
  have h2 : ((event?.map WordField.event).toList.map fun f => f.field.1).Sublist [eventKey] := by
    rcases event? with _ | n
    · exact List.nil_sublist _
    · exact List.Sublist.refl _
  have h3 : (index.map fun f => f.field.1).Sublist [tagIndexKey] := by
    cases hindex with
    | none => exact List.nil_sublist _
    | negative => exact List.Sublist.refl _
    | some => exact List.Sublist.refl _
  rw [List.map_append, List.map_append]
  exact ((h1.append h2).append h3).nodup (by decide)

theorem handle_wordField {opens : Bool} {f : WordField} {line : Text}
    (h : FieldLine opens f.field line) (hread : ReadsNumbers line) (draft : Draft) :
    State.words.handle draft (Line.ofText line)
      = ((draft.opened .words opens).takeWord f, .ok ⟨.words, true⟩) := by
  have hkey : f.field.1 ∈ Line.keys := by cases f <;> simp [WordField.field, Line.keys]
  obtain ⟨hopens, hvalue⟩ := ofText_of_fieldLine hkey h
  have hne : f.field.1 ≠ labelNameKey ∧ f.field.1 ≠ tagArrayKey := by
    cases f <;> simp only [WordField.field] <;> decide
  have hname := hasKey_of_fieldLine hkey h (by simp [Line.keys]) hne.1
  have htags := hasKey_of_fieldLine hkey h (by simp [Line.keys]) hne.2
  have hdraft : (if opens = true then draft.commitWord else draft) = draft.opened .words opens := by
    cases opens <;> rfl
  simp only [State.handle, wordLine, hname, htags, hopens, hdraft, Bool.or_false,
    Bool.false_eq_true, if_false]
  cases f with
  | literal value =>
    simp only [WordField.field] at hvalue
    simp only [wordField, hvalue]
    rfl
  | event n =>
    simp only [WordField.field] at hvalue
    have hliteral : (Line.ofText line).hasKey literalKey = false :=
      hasKey_of_fieldLine hkey h (by simp [Line.keys]) (by simp only [WordField.field]; decide)
    obtain ⟨read, hvalueRead⟩ := hread eventKey (by simp) (ofInt n) hvalue
    simp only [wordField, Line.value?_eq_none.2 hliteral, hvalue,
      leadingInt?_ofInt_of_ok hvalueRead]
    rfl
  | index n =>
    simp only [WordField.field] at hvalue
    have hliteral : (Line.ofText line).hasKey literalKey = false :=
      hasKey_of_fieldLine hkey h (by simp [Line.keys]) (by simp only [WordField.field]; decide)
    have hevent : (Line.ofText line).hasKey eventKey = false :=
      hasKey_of_fieldLine hkey h (by simp [Line.keys]) (by simp only [WordField.field]; decide)
    obtain ⟨read, hvalueRead⟩ := hread tagIndexKey (by simp) (ofInt n) hvalue
    simp only [wordField, Line.value?_eq_none.2 hliteral, Line.value?_eq_none.2 hevent, hvalue,
      leadingInt?_ofInt_of_ok hvalueRead]
    cases n <;> rfl

/-- Taken one after the other, the fields of a word give the word. -/
theorem foldl_takeWord {word : Word} {written : List WordField} (h : WordFields word written)
    {draft : Draft} (hdraft : draft.word = {}) :
    written.foldl Draft.takeWord draft = { draft with word := word } := by
  rcases word with ⟨literal?, event?, index?⟩
  obtain ⟨hliteral, hindex⟩ := h
  rename_i literal index
  have h1 : literal.foldl Draft.takeWord draft
      = { draft with word := { literal := literal? } } := by
    cases hliteral with
    | none => rw [List.foldl_nil, ← hdraft]
    | some hspelled => simp [Draft.takeWord, unquote_of_spelled hspelled, hdraft]
  have h2 : (event?.map WordField.event).toList.foldl Draft.takeWord
      { draft with word := { literal := literal? } }
      = { draft with word := { literal := literal?, event := event? } } := by
    cases event? <;> rfl
  have h3 : index.foldl Draft.takeWord
      { draft with word := { literal := literal?, event := event? } }
      = { draft with word := ⟨literal?, event?, index?⟩ } := by
    cases hindex <;> rfl
  rw [List.foldl_append, List.foldl_append, h1, h2, h3]

/-- A word item leaves its word open. -/
theorem feed_wordLines {word : Word} {lines : List Text} (h : WordLines word lines)
    (hread : ∀ line ∈ lines, ReadsNumbers line) (draft : Draft) :
    feed .words draft (lines.map Line.ofText)
      = .ok (.words, { draft.commitWord with word := word }) := by
  obtain ⟨written, fields, hwritten, hperm, hlines⟩ := h
  have hword : (draft.opened .words true).word = {} := rfl
  rw [feed_item handle_wordField hlines hread,
    foldl_take_perm takeWord_comm hperm (nodup_of_wordFields hwritten),
    foldl_takeWord hwritten hword]
  rfl

/-- The words of the items are committed in their order once the last one is done. -/
theorem feed_words {words : List Word} {items : List (List Text)}
    (h : List.Forall₂ WordLines words items) : (∀ line ∈ items.flatten, ReadsNumbers line) →
      ∀ draft, ∃ draft', feed .words draft (items.flatten.map Line.ofText) = .ok (.words, draft')
        ∧ draft'.commitWord = { draft.commitWord with
          parts := draft.commitWord.parts ++ words.flatMap (Draft.wordParts draft.tags) } := by
  induction h with
  | nil => exact fun _ draft => ⟨draft, rfl, by simp⟩
  | @cons word lines words items hitem _ ih =>
    intro hread draft
    simp only [List.flatten_cons, List.mem_append, or_imp, forall_and] at hread
    obtain ⟨draft', hfeed, hcommit⟩ := ih hread.2 { draft.commitWord with word := word }
    refine ⟨draft', ?_, ?_⟩
    · rw [List.flatten_cons, List.map_append,
        feed_append_of_eq (feed_wordLines hitem hread.1 draft), hfeed]
    · rw [hcommit]
      simp [Draft.commitWord]

end Words

section Labels

theorem others_of_itemLines {φ : Type} {field : φ → Field} {opens : Bool} {fields : List φ}
    {lines : List Text} (h : ItemLines field opens fields lines) (hopens : opens = false)
    (hfields : fields = []) : ∀ line ∈ lines, OtherLine false line := by
  induction h with
  | done => simp
  | field => cases hfields
  | other hline _ ih =>
    subst hopens
    exact List.forall_mem_cons.2 ⟨hline, ih rfl hfields⟩

/-- A word that was committed is not said twice. -/
theorem close_commitWord (draft : Draft) : draft.commitWord.close = draft.close := by
  simp only [Draft.close_eq, Draft.stored, Draft.text, Draft.commitWord, Draft.wordParts]
  simp [Flow.ofEvent?]

/-- The name of a label closes the label before it, also where the item's dash was met before. -/
theorem feed_nameLines {state : State} (hs : state = .labels ∨ state = .words) {name : Text}
    {opens : Bool} {fields : List Field} {lines : List Text}
    (h : ItemLines id opens fields lines) (hfields : fields = [(labelNameKey, name)])
    {messages : Messages} (draft : Draft) (hclose : draft.close = .ok messages) :
    feed state draft (lines.map Line.ofText)
      = .ok (.labels, { messages := messages, label := name }) := by
  induction h generalizing draft with
  | done => cases hfields
  | field hline hrest _ =>
    obtain ⟨rfl, rfl⟩ := List.cons.inj hfields
    obtain ⟨-, hname⟩ := ofText_of_fieldLine (by simp [Line.keys]) hline
    have hlist : state ≠ .outside := by rcases hs with rfl | rfl <;> decide
    rw [List.map_cons, feed_name hlist hname, hclose]
    exact feed_others _ _ (others_of_itemLines hrest rfl rfl)
  | @other opens _ _ _ hline _ ih =>
    rw [List.map_cons, feed_cons (handle_otherLine hline state draft)]
    refine ih hfields _ ?_
    rcases hs with rfl | rfl
    · exact hclose
    · cases opens with
      | false => exact hclose
      | true => exact (close_commitWord draft).trans hclose

theorem flatten_wordParts (label : Label) (word : Word) :
    (Draft.wordParts (label.tags.map ListedTag.tag) word).flatten = label.wordText word := by
  have hplace : Draft.placeholderText (label.tags.map ListedTag.tag) = label.placeholder := by
    funext index
    unfold Draft.placeholderText Label.placeholder
    rcases (label.tags.map ListedTag.tag)[index]? with _ | tag <;> rfl
  have hjoin : ∀ o : Option Text, o.toList.flatten = o.getD [] := by
    intro o
    cases o <;> simp
  rw [Draft.wordParts, Label.wordText, List.flatten_append, List.flatten_append, hjoin, hjoin,
    hjoin, hplace]

theorem handle_labelArray {line : Line} (h : line.hasKey labelArrayKey = true) (draft : Draft) :
    State.outside.handle draft line = (draft, .ok ⟨.labels, true⟩) := by
  simp only [State.handle, outsideLine, h, if_true]

theorem handle_tagArray {line : Line} (h : line.hasKey tagArrayKey = true) (draft : Draft) :
    State.labels.handle draft line = (draft, .ok ⟨.tags, true⟩) := by
  have hno : line.hasKey labelNameKey = false :=
    Line.hasKey_eq_false (by simp [Line.keys]) (by simp [Line.keys]) h (by decide)
  simp only [State.handle, labelLine, Line.value?_eq_none.2 hno, h, if_true]

theorem handle_wordArray {line : Line} (h : line.hasKey wordArrayKey = true) (draft : Draft) :
    State.tags.handle draft line = (draft.flushTag, .ok ⟨.words, true⟩) := by
  simp only [State.handle, tagLine, h, if_true]

/-- A label's item closes the label before it and leaves its own open, with its name and text. -/
theorem feed_writtenLabel {state : State} (hs : state = .labels ∨ state = .words)
    {written : WrittenLabel} {lines : List Text} (h : WrittenLabelLines written lines)
    (hread : ∀ line ∈ lines, ReadsNumbers line) {draft : Draft} {messages : Messages}
    (hclose : draft.close = .ok messages) :
    ∃ draft', feed state draft (lines.map Line.ofText) = .ok (.words, draft')
      ∧ draft'.messages = messages ∧ draft'.label = written.name
      ∧ draft'.text = written.label.text := by
  obtain ⟨hname, htagHead, htags, hwordHead, hwords⟩ := h
  simp only [List.mem_append, or_imp, forall_and] at hread
  obtain ⟨⟨⟨-, htagRead⟩, -⟩, hwordRead⟩ := hread
  have hnamed := feed_nameLines hs hname rfl draft hclose
  have htagList := feed_head htagHead (by simp [Line.keys]) fun line hline =>
    handle_tagArray hline { messages := messages, label := written.name }
  obtain ⟨tagged, hfeedTags, hflush⟩ := feed_writtenTags htags htagRead
    { messages := messages, label := written.name }
  have hwordList := feed_head hwordHead (by simp [Line.keys]) fun line hline =>
    handle_wordArray hline tagged
  obtain ⟨worded, hfeedWords, hcommit⟩ := feed_words hwords hwordRead tagged.flushTag
  refine ⟨worded, ?_, ?_⟩
  · simp only [List.map_append, List.append_assoc]
    rw [feed_append_of_eq hnamed, feed_append_of_eq htagList, feed_append_of_eq hfeedTags,
      feed_append_of_eq hwordList, hfeedWords]
  · rw [hflush] at hcommit
    refine ⟨congrArg Draft.messages hcommit, congrArg Draft.label hcommit, ?_⟩
    change worded.commitWord.parts.flatten = written.label.text
    rw [hcommit]
    change (written.words.flatMap
      (Draft.wordParts (written.label.tags.map ListedTag.tag))).flatten = _
    rw [List.flatMap, List.flatten_flatten, List.map_map, Label.text, List.flatMap]
    exact congrArg List.flatten
      (List.map_congr_left fun word _ => flatten_wordParts written.label word)

end Labels

section Written

theorem itemLines_map {φ ψ : Type} {field : φ → Field} {field' : ψ → Field} {write : φ → ψ}
    (hwrite : ∀ f, field' (write f) = field f) {opens : Bool} {fields : List φ} {lines : List Text}
    (h : ItemLines field opens fields lines) :
    ItemLines field' opens (fields.map write) lines := by
  induction h with
  | done => exact .done
  | @field opens f fields line rest hline _ ih => exact .field ((hwrite f).symm ▸ hline) ih
  | other hline _ ih => exact .other hline ih

theorem readsNumber_of_mem {φ : Type} {field : φ → Field} {opens : Bool} {fields : List φ}
    {lines : List Text} (h : ItemLines field opens fields lines)
    (hread : ∀ line ∈ lines, ReadsNumbers line) {f : φ} (hf : f ∈ fields)
    (hkey : (field f).1 ∈ [tagIndexKey, groupKey, eventKey]) :
    ∃ read, leadingInt? (field f).2 = .ok read := by
  have hkeys : (field f).1 ∈ Line.keys := by
    simp only [List.mem_cons, List.not_mem_nil, or_false] at hkey
    rcases hkey with h | h | h <;> simp [h, Line.keys]
  induction h with
  | done => cases hf
  | @field opens g fields line rest hline _ ih =>
    obtain ⟨hfirst, hrest⟩ := List.forall_mem_cons.1 hread
    rcases List.mem_cons.1 hf with rfl | hf
    · exact hfirst _ hkey _ (ofText_of_fieldLine hkeys hline).2
    · exact ih hrest hf
  | other _ _ ih => exact ih (List.forall_mem_cons.1 hread).2 hf

theorem integer?_ofInt {n : Int} {read : Option Int} (h : leadingInt? (ofInt n) = .ok read) :
    integer? (ofInt n) = some n := by
  rw [integer?, leadingInt?_ofInt_of_ok h]
  rfl

def TagField.written : TagField → TagText
  | .id n => .number (ofNat n)
  | .group n => .group (ofInt n)

theorem exists_writtenTag {tag : ListedTag} {lines : List Text} (h : TagLines tag lines)
    (hread : ∀ line ∈ lines, ReadsNumbers line) :
    ∃ item : WrittenTag, item.listed? = some tag ∧ WrittenTagLines item lines := by
  obtain ⟨fields, hperm, hlines⟩ := h
  have hnumber : ∀ f ∈ tag.fields, ∃ read, leadingInt? f.field.2 = .ok read := by
    intro f hf
    refine readsNumber_of_mem hlines hread (hperm.mem_iff.2 hf) ?_
    cases f <;> simp [TagField.field]
  have hfield : ∀ f : TagField, f.written.field = f.field := by
    intro f
    cases f <;> rfl
  refine ⟨⟨some (ofNat tag.id), tag.group.map ofInt⟩, ?_, fields.map TagField.written, ?_,
    itemLines_map hfield hlines⟩
  · obtain ⟨read, hread⟩ : ∃ read, leadingInt? (ofInt (.ofNat tag.id)) = .ok read :=
      hnumber (.id tag.id) (by simp [ListedTag.fields])
    have hid : (integer? (ofNat tag.id)).bind Int.toNat? = some tag.id :=
      congrArg (Option.bind · Int.toNat?) (integer?_ofInt hread)
    rcases tag with ⟨id, _ | group⟩
    · simp [WrittenTag.listed?, hid]
    · obtain ⟨read, hgroup⟩ := hnumber (.group group) (by simp [ListedTag.fields])
      simp [WrittenTag.listed?, hid, integer?_ofInt hgroup]
  · have hwritten := hperm.map TagField.written
    rcases tag with ⟨id, _ | group⟩ <;> exact hwritten

theorem exists_writtenTags : ∀ {tags : List ListedTag} {items : List (List Text)},
    List.Forall₂ TagLines tags items → (∀ line ∈ items.flatten, ReadsNumbers line) →
      ∃ written : List WrittenTag, written.filterMap WrittenTag.listed? = tags
        ∧ List.Forall₂ WrittenTagLines written items
  | _, _, .nil, _ => ⟨[], rfl, .nil⟩
  | tag :: tags, lines :: items, .cons hitem hitems, hread => by
    simp only [List.flatten_cons, List.mem_append, or_imp, forall_and] at hread
    obtain ⟨item, hlisted, hlines⟩ := exists_writtenTag hitem hread.1
    obtain ⟨written, hall, hrest⟩ := exists_writtenTags hitems hread.2
    exact ⟨item :: written, by rw [List.filterMap_cons_some hlisted, hall], .cons hlines hrest⟩

/-- The item of a label is that of a written one, each of whose tags has a number. -/
theorem exists_writtenLabel {label : Label} {lines : List Text} (h : LabelLines label lines)
    (hread : ∀ line ∈ lines, ReadsNumbers line) :
    ∃ written : WrittenLabel, written.label = label ∧ WrittenLabelLines written lines := by
  obtain ⟨hname, htagHead, htags, hwordHead, hwords⟩ := h
  simp only [List.mem_append, or_imp, forall_and] at hread
  obtain ⟨written, hlisted, hitems⟩ := exists_writtenTags htags hread.1.1.2
  refine ⟨⟨label.name, written, label.words⟩, ?_, .mk hname htagHead hitems hwordHead hwords⟩
  rw [WrittenLabel.label, hlisted]

theorem exists_written : ∀ {labels : List Label} {items : List (List Text)},
    List.Forall₂ LabelLines labels items → (∀ line ∈ items.flatten, ReadsNumbers line) →
      ∃ written : List WrittenLabel, written.map WrittenLabel.label = labels
        ∧ List.Forall₂ WrittenLabelLines written items
  | _, _, .nil, _ => ⟨[], rfl, .nil⟩
  | label :: labels, lines :: items, .cons hitem hitems, hread => by
    simp only [List.flatten_cons, List.mem_append, or_imp, forall_and] at hread
    obtain ⟨first, hfirst, hlines⟩ := exists_writtenLabel hitem hread.1
    obtain ⟨written, hall, hrest⟩ := exists_written hitems hread.2
    exact ⟨first :: written, by rw [List.map_cons, hfirst, hall], .cons hlines hrest⟩

end Written

end Dialogue.Dump
