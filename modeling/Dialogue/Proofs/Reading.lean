import Dialogue.Dump.Decoder

/-!
# Reading a dump line by line

`feed` reads lines and gives the state and the draft that they leave, so reading to the end is
feeding and then closing the draft (`readLines_eq`), and lines in two parts are fed one part after
the other (`feed_append`). Only a label's name looks at the label before it and at the messages that
are finished: all other lines do the same whatever these are (`feed_under`).
-/

namespace Dialogue

def Table.overlay {κ ν : Type} [BEq κ] (table other : Table κ ν) : Table κ ν :=
  table.insertAll other.entries

namespace Dump

namespace Line

theorem value?_eq_some {line : Line} {key value : Text} :
    line.value? key = some value ↔ ∃ rest, line.clean = key ++ rest ∧ Text.trim rest = value := by
  simp only [value?, Option.map_eq_some_iff, Text.after?_eq_some_iff]

theorem hasKey_iff {line : Line} {key : Text} : line.hasKey key = true ↔ key <+: line.clean :=
  List.isPrefixOf_iff_prefix

theorem value?_eq_none {line : Line} {key : Text} :
    line.value? key = none ↔ line.hasKey key = false := by
  rw [← Bool.not_eq_true, hasKey_iff, value?, Option.map_eq_none_iff,
    Option.eq_none_iff_forall_ne_some]
  constructor
  · rintro h ⟨rest, hrest⟩
    exact h rest (Text.after?_eq_some_iff.2 hrest.symm)
  · rintro h rest hrest
    exact h ⟨rest, (Text.after?_eq_some_iff.1 hrest).symm⟩

theorem hasKey_of_value? {line : Line} {key value : Text} (h : line.value? key = some value) :
    line.hasKey key = true := by
  rw [← Bool.not_eq_false, ← value?_eq_none, h]
  simp

/-- The keys that mean something in a message dump. -/
def keys : List Text :=
  [labelArrayKey, labelNameKey, tagArrayKey, tagIndexKey, groupKey, wordArrayKey, literalKey,
    eventKey]

theorem keys_apart : ∀ key ∈ keys, ∀ other ∈ keys, key <+: other → key = other := by
  decide +kernel

/-- A line is the field of one key at most. -/
theorem hasKey_unique {line : Line} {key other : Text} (hkey : key ∈ keys) (hother : other ∈ keys)
    (h : line.hasKey key = true) (h' : line.hasKey other = true) : key = other := by
  rcases List.prefix_or_prefix_of_prefix (hasKey_iff.1 h) (hasKey_iff.1 h') with hp | hp
  · exact keys_apart key hkey other hother hp
  · exact (keys_apart other hother key hkey hp).symm

theorem hasKey_eq_false {line : Line} {key other : Text} (hkey : key ∈ keys) (hother : other ∈ keys)
    (h : line.hasKey key = true) (hne : key ≠ other) : line.hasKey other = false :=
  Bool.not_eq_true _ ▸ fun h' => hne (hasKey_unique hkey hother h h')

end Line

namespace Draft

/-- The text of the label as it stands, the open word included. -/
def text (draft : Draft) : Text := (draft.parts ++ wordParts draft.tags draft.word).flatten

/-- The messages of a draft at the end of its dump. -/
def close (draft : Draft) : Except OverlongInteger Messages :=
  match draft.finish with
  | (_, .error e) => .error e
  | (draft, .ok _) => .ok draft.messages

/-- What the label adds to the messages: nothing, if its name or its text is empty. -/
def stored (draft : Draft) : Except OverlongInteger Messages :=
  if draft.label = [] ∨ draft.text = [] then .ok ∅
  else (Message.ofText draft.text).map fun message =>
    (∅ : Messages).insert (Text.lower draft.label) message

/-- Closing lays what the label adds over the messages before it. -/
theorem close_eq (draft : Draft) : draft.close = draft.stored.map draft.messages.overlay := by
  simp only [close, finish, flushLabel, commitWord, stored, text, Bool.or_eq_true,
    List.isEmpty_iff]
  by_cases h : draft.label = [] ∨ (draft.parts ++ wordParts draft.tags draft.word).flatten = []
  · simp only [h, if_true]
    rfl
  · simp only [h, if_false]
    rcases Message.ofText _ with e | message <;> rfl

/-- It is one entry at most, so laid over no messages it is as it was. -/
theorem stored_overlay (draft : Draft) :
    draft.stored.map (∅ : Messages).overlay = draft.stored := by
  unfold stored
  split
  · rfl
  · rcases Message.ofText _ with e | message <;> rfl

/-- The draft under another label and after other messages. -/
def under (draft : Draft) (messages : Messages) (label : Text) : Draft :=
  { draft with messages := messages, label := label }

theorem close_under {draft : Draft} {label : Text} (h : draft.label = label) (messages : Messages) :
    (draft.under messages label).close = draft.stored.map messages.overlay := by
  subst h
  exact close_eq (draft.under messages draft.label)

theorem close_of_empty {draft : Draft} (h : draft.messages = ∅) : draft.close = draft.stored := by
  rw [close_eq, h, stored_overlay]

end Draft

/-- Reads lines from a state; the state and the draft after them. -/
def feed : State → Draft → List Line → Except OverlongInteger (State × Draft)
  | state, draft, [] => .ok (state, draft)
  | state, draft, line :: rest =>
    match readLine maxReadings state draft line with
    | (_, .error e) => .error e
    | (draft, .ok state) => feed state draft rest

theorem feed_append : ∀ (state : State) (draft : Draft) (first second : List Line),
    feed state draft (first ++ second)
      = (feed state draft first).bind fun (state, draft) => feed state draft second
  | _, _, [], _ => rfl
  | state, draft, line :: first, second => by
    simp only [List.cons_append, feed]
    rcases readLine maxReadings state draft line with ⟨draft', e | state'⟩
    · rfl
    · exact feed_append state' draft' first second

theorem readLines_eq : ∀ (state : State) (draft : Draft) (lines : List Line),
    readLines state draft lines = (feed state draft lines).bind fun (_, draft) => draft.close
  | _, _, [] => rfl
  | state, draft, line :: rest => by
    simp only [readLines, feed]
    rcases readLine maxReadings state draft line with ⟨draft', e | state'⟩
    · rfl
    · exact readLines_eq state' draft' rest

theorem readLines_append (state : State) (draft : Draft) (first second : List Line) :
    readLines state draft (first ++ second)
      = (feed state draft first).bind fun (state, draft) => readLines state draft second := by
  rw [readLines_eq, feed_append]
  rcases feed state draft first with e | ⟨state', draft'⟩
  · rfl
  · exact (readLines_eq state' draft' second).symm

/-- A label's name closes the label before it and starts its own, whichever list is open. -/
theorem feed_name {state : State} {line : Line} {name : Text} (hs : state ≠ .outside)
    (h : line.value? labelNameKey = some name) (draft : Draft) (rest : List Line) :
    feed state draft (line :: rest) = draft.close.bind fun messages =>
      feed .labels ({ label := name : Draft }.under messages name) rest := by
  have hkey : line.hasKey labelNameKey = true := Line.hasKey_of_value? h
  have hlabel : ∀ readings, readLine (readings + 1) .labels draft line =
      match draft.finish with
      | (draft, .error e) => (draft, .error e)
      | (draft, .ok _) => (draft.startLabel name, .ok .labels) := by
    intro readings
    simp only [readLine, State.handle, labelLine, h]
    rcases draft.finish with ⟨draft', e | _⟩ <;> rfl
  -- the list states hand the line back to the label state and leave the draft alone
  have hread : readLine maxReadings state draft line = readLine 2 .labels draft line
      ∨ state = .labels := by
    cases state with
    | outside => exact absurd rfl hs
    | labels => exact .inr rfl
    | tags =>
      have hwords : line.hasKey wordArrayKey = false :=
        Line.hasKey_eq_false (by simp [Line.keys]) (by simp [Line.keys]) hkey (by decide)
      exact .inl (by simp [maxReadings, readLine, State.handle, tagLine, hwords, hkey])
    | words => exact .inl (by simp [maxReadings, readLine, State.handle, wordLine, hkey])
  have hfinal : readLine maxReadings state draft line =
      match draft.finish with
      | (draft, .error e) => (draft, .error e)
      | (draft, .ok _) => (draft.startLabel name, .ok .labels) := by
    rcases hread with heq | rfl
    · rw [heq, hlabel]
    · exact hlabel 2
  simp only [feed, hfinal, Draft.close]
  rcases draft.finish with ⟨draft', e | _⟩ <;> rfl

theorem handle_ne_outside {state : State} (hs : state ≠ .outside) (draft : Draft) (line : Line) :
    ∀ next, (state.handle draft line).2 = .ok next → next.state ≠ .outside := by
  intro next h
  cases state with
  | outside => exact absurd rfl hs
  | labels =>
    simp only [State.handle, labelLine] at h
    repeat' split at h
    all_goals cases h
    all_goals simp
  | tags =>
    simp only [State.handle, tagLine, tagField] at h
    repeat' split at h
    all_goals cases h
    all_goals simp
  | words =>
    simp only [State.handle, wordLine, wordField] at h
    repeat' split at h
    all_goals cases h
    all_goals simp

theorem readLine_ne_outside : ∀ (readings : Nat) {state : State}, state ≠ .outside →
    ∀ (draft : Draft) (line : Line) (next : State),
      (readLine readings state draft line).2 = .ok next → next ≠ .outside
  | 0, state, hs, draft, line, next, h => by
    simp only [readLine, Except.ok.injEq] at h
    exact h ▸ hs
  | readings + 1, state, hs, draft, line, next, h => by
    have hh := handle_ne_outside hs draft line
    simp only [readLine] at h
    rcases hstep : state.handle draft line with ⟨draft', e | t⟩
    · simp [hstep] at h
    · rw [hstep] at hh
      have ht := hh t rfl
      simp only [hstep] at h
      split at h
      · simp only [Except.ok.injEq] at h
        exact h ▸ ht
      · exact readLine_ne_outside readings ht draft' line next h

theorem feed_ne_outside : ∀ {state : State} {draft : Draft} {lines : List Line} {state' : State}
    {draft' : Draft}, state ≠ .outside → feed state draft lines = .ok (state', draft') →
      state' ≠ .outside
  | state, draft, [], state', draft', hs, h => by
    simp only [feed, Except.ok.injEq, Prod.mk.injEq] at h
    exact h.1 ▸ hs
  | state, draft, line :: rest, state', draft', hs, h => by
    simp only [feed] at h
    rcases hread : readLine maxReadings state draft line with ⟨draft'', e | next⟩
    · simp [hread] at h
    · simp only [hread] at h
      refine feed_ne_outside (readLine_ne_outside maxReadings hs draft line next ?_) h
      rw [hread]

section Under

variable (messages : Messages) (label : Text)

theorem handle_under (state : State) (draft : Draft) {line : Line}
    (h : line.hasKey labelNameKey = false) :
    state.handle (draft.under messages label) line
      = ((state.handle draft line).1.under messages label, (state.handle draft line).2) := by
  cases state with
  | outside => rfl
  | labels =>
    simp only [State.handle, labelLine, Line.value?_eq_none.2 h]
    repeat' split
    all_goals rfl
  | tags =>
    simp only [State.handle, tagLine, tagField]
    repeat' split
    all_goals rfl
  | words =>
    simp only [State.handle, wordLine, wordField]
    repeat' split
    all_goals rfl

theorem readLine_under : ∀ (readings : Nat) (state : State) (draft : Draft) {line : Line},
    line.hasKey labelNameKey = false →
      readLine readings state (draft.under messages label) line
        = ((readLine readings state draft line).1.under messages label,
          (readLine readings state draft line).2)
  | 0, _, _, _, _ => rfl
  | readings + 1, state, draft, line, h => by
    simp only [readLine, handle_under messages label state draft h]
    rcases state.handle draft line with ⟨draft', e | next⟩
    · rfl
    · simp only []
      split
      · rfl
      · exact readLine_under readings next.state draft' h

/-- Lines without a label's name are read alike under any label and after any messages. -/
theorem feed_under : ∀ (state : State) (draft : Draft) {lines : List Line},
    (∀ line ∈ lines, line.hasKey labelNameKey = false) →
      feed state (draft.under messages label) lines
        = (feed state draft lines).map fun (state, draft) => (state, draft.under messages label)
  | _, _, [], _ => rfl
  | state, draft, line :: rest, h => by
    have hline := h line (by simp)
    have hrest : ∀ other ∈ rest, other.hasKey labelNameKey = false := fun other hmem =>
      h other (by simp [hmem])
    simp only [feed, readLine_under messages label maxReadings state draft hline]
    rcases readLine maxReadings state draft line with ⟨draft', e | next⟩
    · rfl
    · exact feed_under next draft' hrest

end Under

/-- They keep the label and the messages. -/
theorem kept_of_feed {state state' : State} {draft draft' : Draft} {lines : List Line}
    (hlines : ∀ line ∈ lines, line.hasKey labelNameKey = false)
    (hfeed : feed state draft lines = .ok (state', draft')) :
    draft'.messages = draft.messages ∧ draft'.label = draft.label := by
  have hkeep := feed_under draft.messages draft.label state draft hlines
  rw [show draft.under draft.messages draft.label = draft from rfl, hfeed] at hkeep
  simp only [Except.map, Except.ok.injEq, Prod.mk.injEq] at hkeep
  rw [hkeep.2]
  exact ⟨rfl, rfl⟩

end Dump

end Dialogue
