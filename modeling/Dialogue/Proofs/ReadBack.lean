import Dialogue.Proofs.Canonical
import Dialogue.Proofs.DumpReading

/-!
# Placeholders that are read back

What the words of a label say is written into its text, and the text is cut into segments
(`tokenize_said`). Literals without an opening brace and a backslash come back, neighbours as one,
and flow marks as they are. A tag comes back unless its group is negative: its token then is none
for the cutting, and stays text (`Said.readBack`). So the segments of a message are what its label
says exactly if no tag that a word points at has a negative group (`segments_of_plain`); such groups
do occur (`not_said_of_negative`).
-/

namespace Dialogue

open Text

/-! ## What words say -/

/-- A literal, a tag or a flow mark. -/
inductive Said
  | text (literal : Text)
  | tag (tag : Dump.Tag)
  | flow (mark : Flow)
deriving DecidableEq, Repr

namespace Said

def raw : Said → Text
  | .text literal => literal
  | .tag t => t.token
  | .flow mark => mark.token

/-- One more literal in front: an empty one is dropped, and one in front of a literal is part of
it. -/
def consText (literal : Text) : List Said → List Said
  | .text next :: rest => .text (literal ++ next) :: rest
  | rest => if literal = [] then rest else .text literal :: rest

/-- What is said, with neighbouring literals as one and without empty ones. -/
def merge : List Said → List Said
  | [] => []
  | .text literal :: rest => consText literal (merge rest)
  | said :: rest => said :: merge rest

/-- What is read back of a token: a negative group makes it text. -/
def readBack : Said → Said
  | .tag t => if t.group < 0 then .text t.token else .tag t
  | said => said

def tag? : Said → Option Dump.Tag
  | .tag t => some t
  | _ => none

/-- A literal in which nothing can begin that is no literal, or numbers that can be read. -/
def Legible : Said → Prop
  | .text literal => '\x7b' ∉ literal ∧ '\\' ∉ literal
  | .tag t => (ofNat t.id).length ≤ maxDigits ∧ (ofNat t.group.natAbs).length ≤ maxDigits
  | .flow _ => True

theorem consText_nil (said : List Said) : consText [] said = said := by
  unfold consText
  split <;> rfl

theorem consText_cons (c : Char) (literal : Text) (said : List Said) :
    consText [c] (consText literal said) = consText (c :: literal) said := by
  have hother : ∀ {said : List Said}, (∀ next rest, said ≠ .text next :: rest) → ∀ literal,
      consText literal said = if literal = [] then said else .text literal :: said := by
    intro said hsaid literal
    unfold consText
    split
    · exact absurd rfl (hsaid _ _)
    · rfl
  by_cases hsaid : ∃ next rest, said = .text next :: rest
  · obtain ⟨next, rest, rfl⟩ := hsaid
    rfl
  · have hsaid : ∀ next rest, said ≠ .text next :: rest := fun next rest h => hsaid ⟨next, rest, h⟩
    rw [hother hsaid literal, hother hsaid (c :: literal), if_neg (List.cons_ne_nil c literal)]
    by_cases hnil : literal = []
    · rw [if_pos hnil, hother hsaid, if_neg (List.cons_ne_nil c []), hnil]
    · rw [if_neg hnil]
      rfl

theorem filterMap_consText (literal : Text) (said : List Said) :
    (consText literal said).filterMap tag? = said.filterMap tag? := by
  unfold consText
  split
  · rfl
  · split_ifs
    · rfl
    · rfl

theorem filterMap_merge : ∀ said : List Said,
    (merge said).filterMap tag? = said.filterMap tag?
  | [] => rfl
  | .text literal :: rest => by
    rw [merge, filterMap_consText, filterMap_merge rest]
    rfl
  | .tag t :: rest => by
    have ih := filterMap_merge rest
    simp only [merge, List.filterMap_cons, ih]
  | .flow mark :: rest => by
    have ih := filterMap_merge rest
    simp only [merge, List.filterMap_cons, ih]

theorem filterMap_readBack (said : List Said) : (said.map readBack).filterMap tag?
    = (said.filterMap tag?).filter fun tag => decide (0 ≤ tag.group) := by
  induction said with
  | nil => rfl
  | cons first rest ih =>
    cases first with
    | text literal => exact ih
    | flow mark => exact ih
    | tag t =>
      by_cases hgroup : t.group < 0
      · simp [readBack, hgroup, Int.not_le.2 hgroup, tag?, List.filterMap_cons, ih]
      · simp [readBack, hgroup, Int.not_lt.1 hgroup, tag?, ih]

theorem readBack_of_le {t : Dump.Tag} (h : 0 ≤ t.group) : readBack (.tag t) = .tag t :=
  if_neg (Int.not_lt.2 h)

/-- All that is said is read back exactly if no group is negative. -/
theorem merge_readBack_eq_iff {said : List Said} :
    merge (said.map readBack) = merge said ↔ ∀ t, .tag t ∈ said → 0 ≤ t.group := by
  constructor
  · intro h t ht
    have htags := congrArg (List.filterMap tag?) h
    rw [filterMap_merge, filterMap_merge, filterMap_readBack, List.filter_eq_self] at htags
    exact of_decide_eq_true (htags t (List.mem_filterMap.2 ⟨.tag t, ht, rfl⟩))
  · intro h
    have hsame : ∀ s ∈ said, s.readBack = s := by
      intro s hs
      cases s with
      | text literal => rfl
      | tag t => exact readBack_of_le (h t hs)
      | flow mark => rfl
    have hmap : said.map readBack = said.map id := List.map_congr_left hsame
    rw [hmap, List.map_id]

end Said

def Segment.said : Segment → Said
  | .text literal => .text literal
  | .flow mark => .flow mark
  | .placeholder p => .tag ⟨p.tag, p.group⟩

/-! ## Cutting what was said -/

namespace Piece

/-- Whatever follows, the text is cut into its characters. -/
def Inert (literal : Text) : Prop :=
  ∀ rest, ofText (literal ++ rest) = literal.map .char ++ ofText rest

theorem inert_cons {c : Char} {literal : Text} (h : Inert literal)
    (hc : ∀ rest, Token.take? (c :: (literal ++ rest)) = none) : Inert (c :: literal) := by
  intro rest
  rw [List.cons_append, ofText]
  split
  · rename_i heq
    rw [hc rest] at heq
    cases heq
  · rw [h rest]
    rfl

theorem inert_of_not_mem {literal : Text} (h : '\x7b' ∉ literal) : Inert literal := by
  induction literal with
  | nil => exact fun _ => rfl
  | cons c literal ih =>
    rw [List.mem_cons, not_or] at h
    refine inert_cons (ih h.2) fun rest => ?_
    rw [Option.eq_none_iff_forall_ne_some]
    rintro ⟨token, tail⟩ ht
    obtain ⟨slice, hslice, htext⟩ := Token.take?_eq_some ht
    obtain ⟨body, rfl, -⟩ := hslice.braces
    exact h.1 (List.cons.inj htext).1.symm

theorem isNumeral_ofNat (n : Nat) : IsNumeral (ofNat n) :=
  ⟨Nat.toDigits_ne_nil, fun _ hc => isDecimal_of_mem_ofNat hc⟩

/-- No token begins where a group is negative: the minus is no digit. -/
theorem inert_token {t : Dump.Tag} (h : t.group < 0) : Inert t.token := by
  obtain ⟨id, n | n⟩ := t
  · exact absurd h (Int.not_lt.2 (Int.natCast_nonneg n))
  · have hbrace : ∀ n, '\x7b' ∉ ofNat n := fun n => (isNumeral_ofNat n).not_mem (by decide)
    have hbody : '\x7b' ∉ ofNat id ++ ':' :: ofInt (.negSucc n) ++ ['\x7d'] := by
      simp [ofInt, hbrace]
    refine inert_cons (inert_of_not_mem hbody) fun rest => ?_
    obtain ⟨htake, hdrop⟩ := takeWhile_numeral (isNumeral_ofNat id) (c := ':') (by decide)
      (ofInt (.negSucc n) ++ '\x7d' :: rest)
    have hsplit : ofNat id ++ ':' :: ofInt (.negSucc n) ++ ['\x7d'] ++ rest
        = ofNat id ++ ':' :: (ofInt (.negSucc n) ++ '\x7d' :: rest) := by
      simp
    have hminus : (ofInt (.negSucc n) ++ '\x7d' :: rest).takeWhile isDecimal = [] :=
      List.takeWhile_cons_of_neg (by decide)
    rw [hsplit, Token.take?_of_numeral (isNumeral_ofNat id), Token.takeReference?]
    simp only [htake, hdrop, hminus]
    split_ifs <;> rfl

theorem said_consChar (c : Char) (segments : List Segment) :
    (consChar c segments).map Segment.said = Said.consText [c] (segments.map Segment.said) := by
  rcases segments with _ | ⟨first, rest⟩
  · rfl
  · cases first <;> rfl

theorem said_foldr_consChar (literal : Text) (segments : List Segment) :
    (literal.foldr consChar segments).map Segment.said
      = Said.consText literal (segments.map Segment.said) := by
  induction literal with
  | nil => rw [List.foldr_nil, Said.consText_nil]
  | cons c literal ih => rw [List.foldr_cons, said_consChar, ih, Said.consText_cons]

end Piece

theorem Said.merge_segment {segment : Segment} (h : segment.isText = false) (rest : List Said) :
    Said.merge (segment.said :: rest) = segment.said :: Said.merge rest := by
  cases segment with
  | text literal => cases h
  | flow mark => rfl
  | placeholder p => rfl

/-- What is read back is text that is cut into its characters, or a segment that has a token. -/
theorem Said.Legible.readBack_cases {said : Said} (h : said.Legible) :
    (said.readBack = .text said.raw ∧ Piece.Inert said.raw)
      ∨ ∃ segment token, said.readBack = segment.said ∧ segment.isText = false
        ∧ Token.Spelled said.raw token ∧ token.segment = .ok segment := by
  cases said with
  | text literal => exact .inl ⟨rfl, Piece.inert_of_not_mem h.1⟩
  | flow mark => exact .inr ⟨.flow mark, .flow mark, rfl, rfl, .flow mark, rfl⟩
  | tag t =>
    by_cases hgroup : t.group < 0
    · exact .inl ⟨if_pos hgroup, Piece.inert_token hgroup⟩
    · obtain ⟨id, group⟩ := t
      obtain ⟨n, rfl⟩ := Int.eq_ofNat_of_zero_le (Int.not_lt.1 hgroup)
      have hshort : ∀ p, Segment.placeholder ⟨id, n⟩ = .placeholder p →
          (ofNat p.tag).length ≤ maxDigits ∧ (ofNat p.group).length ≤ maxDigits := by
        rintro p hp
        cases hp
        exact h
      obtain ⟨token, hspelled, hsegment⟩ := @Segment.spelled_raw (.placeholder ⟨id, n⟩) rfl
        hshort
      exact .inr ⟨.placeholder ⟨id, n⟩, token, readBack_of_le (Int.not_lt.1 hgroup), rfl,
        hspelled, hsegment⟩

theorem segments_said : ∀ {said : List Said}, (∀ s ∈ said, s.Legible) →
    ∃ segments, Piece.segments (Piece.ofText (said.flatMap Said.raw)) = .ok segments
      ∧ segments.map Segment.said = Said.merge (said.map Said.readBack)
  | [], _ => ⟨[], by simp [Piece.ofText, Piece.segments], rfl⟩
  | s :: said, h => by
    obtain ⟨hs, hsaid⟩ := List.forall_mem_cons.1 h
    obtain ⟨segments, hsegments, hmerged⟩ := segments_said hsaid
    rw [List.flatMap_cons, List.map_cons]
    -- characters join the text behind them, as literals do; a token is a segment of its own
    rcases hs.readBack_cases with
      ⟨hread, hinert⟩ | ⟨segment, token, hread, htext, hspelled, hsegment⟩
    · refine ⟨s.raw.foldr Piece.consChar segments, ?_, ?_⟩
      · rw [hinert, Piece.segments_literal, hsegments]
        rfl
      · rw [hread, Said.merge, Piece.said_foldr_consChar, hmerged]
    · refine ⟨segment :: segments, ?_, ?_⟩
      · rw [Piece.ofText_token hspelled, Piece.segments, hsegment, hsegments]
        rfl
      · rw [hread, Said.merge_segment htext, List.map_cons, hmerged]

theorem Said.Legible.no_backslash {said : Said} (h : said.Legible) : '\\' ∉ said.raw := by
  cases said with
  | text literal => exact h.2
  | flow mark => cases mark <;> decide
  | tag t =>
    have hdigits : ∀ n, '\\' ∉ ofNat n := fun n => (Piece.isNumeral_ofNat n).not_mem (by decide)
    obtain ⟨id, n | n⟩ := t
    · simp [Said.raw, Dump.Tag.token, ofInt, hdigits]
    · simp [Said.raw, Dump.Tag.token, ofInt, hdigits]

/-- Text of literals, tags and flow marks is cut into what can be read back of them. -/
theorem tokenize_said {said : List Said} (h : ∀ s ∈ said, s.Legible) :
    ∃ segments, Message.tokenize (said.flatMap Said.raw) = .ok segments
      ∧ segments.map Segment.said = Said.merge (said.map Said.readBack) := by
  have hunescaped : ∀ mark, Message.Unescaped mark (said.flatMap Said.raw) := by
    intro mark
    refine Message.unescaped_iff.2 fun hinfix => ?_
    have hmem : '\\' ∈ said.flatMap Said.raw := hinfix.subset (by simp)
    obtain ⟨s, hs, hraw⟩ := List.mem_flatMap.1 hmem
    exact (h s hs).no_backslash hraw
  rw [Message.tokenize, Message.normalize_of_unescaped hunescaped]
  exact segments_said h

/-! ## The messages of a dump -/

namespace Dump

namespace Label

/-- The tag of a tag index: the one at that place of the list, or the index itself in the default
group if the list is shorter. -/
def tagAt (label : Label) (index : Nat) : Tag :=
  (label.tags.map ListedTag.tag)[index]?.getD ⟨index, defaultGroup⟩

def wordSaid (label : Label) (word : Word) : List Said :=
  (word.literal.map .text).toList
    ++ (word.tagIndex.map fun index => .tag (label.tagAt index)).toList
    ++ ((Flow.ofEvent? word.event word.literal.isSome).map .flow).toList

/-- What the words of the label say. -/
def said (label : Label) : List Said := label.words.flatMap label.wordSaid

/-- The literals of the label have neither an opening brace nor a backslash. -/
def Plain (label : Label) : Prop :=
  ∀ word ∈ label.words, ∀ literal ∈ word.literal, '\x7b' ∉ literal ∧ '\\' ∉ literal

instance (label : Label) : Decidable label.Plain :=
  inferInstanceAs (Decidable (∀ _ ∈ _, _))

theorem text_eq_said (label : Label) : label.text = label.said.flatMap Said.raw := by
  have hword : ∀ word, label.wordText word = (label.wordSaid word).flatMap Said.raw := by
    intro word
    rcases word with ⟨literal, event, index⟩
    simp only [wordText, wordSaid, List.flatMap_append]
    congr 1
    · congr 1
      · cases literal <;> simp [Said.raw]
      · cases index <;> simp [Said.raw, placeholder, tagAt]
    · cases Flow.ofEvent? event literal.isSome <;> simp [Said.raw]
  rw [said, List.flatMap_assoc, text]
  exact List.flatMap_congr fun word _ => hword word

end Label

theorem length_of_integer? {value : Text} {n : Int} (h : integer? value = some n) :
    (ofNat n.natAbs).length ≤ maxDigits := by
  have hread : leadingInt? value = .ok (some n) := by
    rw [integer?] at h
    rcases hvalue : leadingInt? value with e | read
    · rw [hvalue] at h
      cases h
    · rw [hvalue] at h
      exact congrArg Except.ok h
  exact length_of_leadingInt? hread

/-- The numbers of a tag that a dump lists, and those of a tag index that it holds, can be read. -/
theorem legible_tagAt (written : WrittenLabel) {index : Nat}
    (hindex : (ofNat index).length ≤ maxDigits) :
    (Said.tag (written.label.tagAt index)).Legible := by
  have hone : (ofNat 1).length ≤ maxDigits := by decide
  rw [Label.tagAt, List.getElem?_map]
  rcases htag : written.label.tags[index]? with _ | tag
  · exact ⟨hindex, hone⟩
  · obtain ⟨item, -, hitem⟩ := List.mem_filterMap.1 (List.mem_of_getElem? htag)
    simp only [WrittenTag.listed?, Option.map_eq_some_iff, Option.bind_eq_some_iff] at hitem
    obtain ⟨id, ⟨n, ⟨value, -, hvalue⟩, hid⟩, rfl⟩ := hitem
    have hlength := length_of_integer? hvalue
    refine ⟨?_, ?_⟩
    · rcases n with n | n
      · obtain rfl := Option.some.inj hid
        exact hlength
      · cases hid
    · rcases hgroup : item.group.bind integer? with _ | group
      · exact hone
      · obtain ⟨value, -, hvalue⟩ := Option.bind_eq_some_iff.1 hgroup
        exact length_of_integer? hvalue

theorem legible_said {written : WrittenLabel} (hplain : written.label.Plain)
    (hindex : ∀ word ∈ written.words, ∀ index ∈ word.tagIndex, (ofNat index).length ≤ maxDigits) :
    ∀ s ∈ written.label.said, s.Legible := by
  intro s hs
  obtain ⟨word, hword, hs⟩ := List.mem_flatMap.1 hs
  simp only [Label.wordSaid, List.mem_append, Option.mem_toList, Option.map_eq_some_iff] at hs
  rcases hs with (⟨literal, hliteral, rfl⟩ | ⟨index, hindexed, rfl⟩) | ⟨mark, -, rfl⟩
  · exact hplain word hword literal hliteral
  · exact legible_tagAt written (hindex word hword index hindexed)
  · trivial

theorem length_of_wordLines {word : Word} {lines : List Text} (h : WordLines word lines)
    (hread : ∀ line ∈ lines, ReadsNumbers line) :
    ∀ index ∈ word.tagIndex, (ofNat index).length ≤ maxDigits := by
  intro index hindex
  obtain ⟨written, fields, hwritten, hperm, hlines⟩ := h
  have hwrites : WordField.index index ∈ written := by
    obtain ⟨-, hindexed⟩ := hwritten
    rw [hindex] at hindexed
    cases hindexed
    exact List.mem_append_right _ (List.mem_singleton_self _)
  obtain ⟨read, hvalue⟩ : ∃ read, leadingInt? (ofInt index) = .ok read :=
    readsNumber_of_mem hlines hread (hperm.mem_iff.2 hwrites) (by simp [WordField.field])
  exact length_of_leadingInt? (leadingInt?_ofInt_of_ok hvalue)

theorem exists_of_mem {α : Type} {R : α → List Text → Prop} {a : α} :
    ∀ {list : List α} {items : List (List Text)}, List.Forall₂ R list items → a ∈ list →
      ∃ lines, R a lines ∧ ∀ line ∈ lines, line ∈ items.flatten
  | _, _, .nil, h => by cases h
  | x :: list, lines :: items, .cons hfirst hrest, h => by
    rcases List.mem_cons.1 h with rfl | h
    · exact ⟨lines, hfirst, fun line hline => by simp [hline]⟩
    · obtain ⟨lines, hlines, hmem⟩ := exists_of_mem hrest h
      exact ⟨lines, hlines, fun line hline => List.mem_append_right _ (hmem line hline)⟩

/-- A label of a dump whose literals are plain says what can be read. -/
theorem legible_of_plain {layout : Layout} {labels : List WrittenLabel} {all : List Text}
    (h : WrittenDump layout labels all) (hnumbers : ∀ line ∈ all, ReadsNumbers line)
    {written : WrittenLabel} (hmem : written ∈ labels) (hplain : written.label.Plain) :
    ∀ s ∈ written.label.said, s.Legible := by
  obtain ⟨-, hitems⟩ := h
  rename_i front items
  obtain ⟨lines, ⟨-, -, -, -, hwords⟩, hlines⟩ := exists_of_mem hitems hmem
  refine legible_said hplain fun word hword => ?_
  obtain ⟨wordLines, hwordLines, hin⟩ := exists_of_mem hwords hword
  refine length_of_wordLines hwordLines fun line hline => hnumbers line ?_
  exact List.mem_append_right front (hlines line (List.mem_append_right _ (hin line hline)))

theorem ofText_of_legible {label : Label} (h : ∀ s ∈ label.said, s.Legible) :
    ∃ segments, Message.ofText label.text = .ok ⟨label.text, segments⟩
      ∧ segments.map Segment.said = Said.merge (label.said.map Said.readBack) := by
  obtain ⟨segments, hsegments, hmerged⟩ := tokenize_said h
  refine ⟨segments, ?_, hmerged⟩
  rw [← label.text_eq_said] at hsegments
  rw [Message.ofText, hsegments]
  rfl

/-- The message of a key is cut from the text that the table has for it. -/
theorem Spells.get? {messages : Messages} {table : Table Text Text} (h : Spells messages table)
    {key text : Text} (hkey : table.get? key = some text) :
    ∃ message, messages.get? key = some message ∧ Message.ofText text = .ok message := by
  obtain ⟨hentries, hcut⟩ := h
  rw [Table.get?, ← hentries, List.find?_map, Option.map_map, Option.map_eq_some_iff] at hkey
  obtain ⟨⟨other, message⟩, hfound, rfl⟩ := hkey
  refine ⟨message, ?_, hcut _ (List.mem_of_find?_eq_some hfound)⟩
  rw [Table.get?]
  exact congrArg (Option.map Prod.snd) hfound

/-- A dump decodes, and the message of a label whose literals are plain has the segments that its
words say, but for tags with a negative group: the token of such a tag stays text. -/
theorem segments_of_plain {layout : Layout} {labels : List WrittenLabel} {text : Text}
    (h : WrittenDump layout labels (lines text)) (hnumbers : ∀ line ∈ lines text, ReadsNumbers line)
    (hothers : ∀ written ∈ labels, ¬ written.label.Plain →
      ∃ message, Message.ofText written.label.text = .ok message) :
    ∃ messages, decode layout text = .ok messages
      ∧ Spells messages (Table.ofList (labels.filterMap fun written => written.label.entry?))
      ∧ ∀ front written back key, labels = front ++ written :: back → written.label.Plain →
        written.label.entry? = some (key, written.label.text) →
        (∀ other ∈ back, ∀ entry ∈ other.label.entry?, entry.1 ≠ key) →
        ∃ segments, messages.get? key = some ⟨written.label.text, segments⟩
          ∧ segments.map Segment.said = Said.merge (written.label.said.map Said.readBack)
          ∧ (segments.map Segment.said = Said.merge written.label.said
            ↔ ∀ t, .tag t ∈ written.label.said → 0 ≤ t.group) := by
  have hlegible := fun written hmem hplain => @legible_of_plain _ _ _ h hnumbers written hmem hplain
  have hcuts : ∀ written ∈ labels, ∃ message, Message.ofText written.label.text = .ok message := by
    intro written hmem
    by_cases hplain : written.label.Plain
    · obtain ⟨segments, hof, -⟩ := ofText_of_legible (hlegible written hmem hplain)
      exact ⟨_, hof⟩
    · exact hothers written hmem hplain
  obtain ⟨messages, hdecode, hspells⟩ := decode_of_written h hnumbers hcuts
  refine ⟨messages, hdecode, hspells, ?_⟩
  rintro front written back key rfl hplain hentry hlast
  obtain ⟨segments, hof, hmerged⟩ := ofText_of_legible (hlegible written (by simp) hplain)
  have hkeys : ∀ pair ∈ back.filterMap fun other => other.label.entry?, pair.1 ≠ key := by
    intro pair hpair
    obtain ⟨other, hother, hpair⟩ := List.mem_filterMap.1 hpair
    exact hlast other hother pair hpair
  have htable : (Table.ofList
      ((front ++ written :: back).filterMap fun written => written.label.entry?)).get? key
      = some written.label.text := by
    have hcons : (written :: back).filterMap (fun written => written.label.entry?)
        = (key, written.label.text) :: back.filterMap fun written => written.label.entry? :=
      List.filterMap_cons_some hentry
    rw [List.filterMap_append, hcons]
    exact Table.get?_ofList_append _ key _ hkeys
  -- the table has the text of this label, as no later one has its key
  obtain ⟨message, hmessage, hcut⟩ := hspells.get? htable
  rw [hof] at hcut
  obtain rfl := Except.ok.inj hcut
  refine ⟨segments, hmessage, hmerged, ?_⟩
  rw [hmerged]
  exact Said.merge_readBack_eq_iff

/-- A label with literals side by side, a negative group and an index beyond its list. -/
def echoLabel : WrittenLabel where
  name := "Greet"
  items := [⟨some "7", some "2"⟩, ⟨some "5", some "-1"⟩]
  words := [{ literal := some "Hi ".toList, event := some 0 },
    { literal := some "you".toList, event := some 0, tagIndex := some 0 },
    { event := some 0, tagIndex := some 1 }, { literal := some [], event := some 1 },
    { tagIndex := some 9 }]

/-- A label with a token in a literal. -/
def bracedLabel : WrittenLabel where
  name := "Raw"
  words := [{ literal := some "\x7b5\x7d".toList, event := some 0 }]

theorem segments_of_plain_echo :
    WrittenDump .table [echoLabel, bracedLabel]
        (lines (terminated (writtenLines [echoLabel, bracedLabel])))
      ∧ (∀ line ∈ lines (terminated (writtenLines [echoLabel, bracedLabel])), ReadsNumbers line)
      ∧ (∀ written ∈ [echoLabel, bracedLabel], ¬ written.label.Plain →
        ∃ message, Message.ofText written.label.text = .ok message)
      ∧ echoLabel.label.Plain
      ∧ echoLabel.label.text
        = "Hi you\x7b7:2\x7d\x7b5:-1\x7d\x7bn\x7d\x7b9:1\x7d".toList
      ∧ ∃ messages segments,
        decode .table (terminated (writtenLines [echoLabel, bracedLabel])) = .ok messages
          ∧ messages.get? "greet".toList = some ⟨echoLabel.label.text, segments⟩
          ∧ segments.map Segment.said = [.text "Hi you".toList, .tag ⟨7, 2⟩,
            .text "\x7b5:-1\x7d".toList, .flow .softBreak, .tag ⟨9, 1⟩] := by
  have hone : ∀ line ∈ writtenLines [echoLabel, bracedLabel], OneLine line := by decide +kernel
  have hdump := writtenLines_written (by decide +kernel) hone
  have hnumbers := readsNumbers_of_length hone (by decide +kernel)
  have hlength : ∀ written ∈ [echoLabel, bracedLabel],
      written.label.text.length ≤ maxDigits := by decide +kernel
  have hothers := fun written hmem (_ : ¬ written.label.Plain) =>
    Message.ofText_of_length (hlength written hmem)
  have hplain : echoLabel.label.Plain := by decide +kernel
  obtain ⟨messages, hdecode, -, hlabels⟩ := segments_of_plain hdump hnumbers hothers
  obtain ⟨segments, hmessage, hsegments, -⟩ := hlabels [] echoLabel [bracedLabel] "greet".toList rfl
    hplain (by decide +kernel) (by decide +kernel)
  refine ⟨hdump, hnumbers, hothers, hplain, by decide +kernel, messages, segments, hdecode,
    hmessage, ?_⟩
  rw [hsegments]
  decide +kernel

/-- A label that points at a tag with a negative group. -/
def negativeLabel : WrittenLabel where
  name := "a"
  items := [⟨some "5", some "-1"⟩]
  words := [{ event := some 0, tagIndex := some 0 }]

/-- Not everything that plain labels say is read back. -/
theorem not_said_of_negative :
    ¬ ∀ (written : WrittenLabel) (text : Text) (messages : Messages),
      WrittenDump .table [written] (lines text) → decode .table text = .ok messages →
        written.label.Plain → ∀ entry ∈ messages.entries,
          entry.2.segments.map Segment.said = Said.merge written.label.said := by
  intro h
  have hone : ∀ line ∈ writtenLines [negativeLabel], OneLine line := by decide +kernel
  have hdump := writtenLines_written (by decide +kernel) hone
  have hnumbers := readsNumbers_of_length hone (by decide +kernel)
  have hplain : negativeLabel.label.Plain := by decide +kernel
  obtain ⟨segments, hof, hmerged⟩ :=
    ofText_of_legible (legible_of_plain hdump hnumbers (List.mem_singleton_self _) hplain)
  obtain ⟨messages, hdecode, hspells⟩ := decode_of_written hdump hnumbers
    (List.forall_mem_singleton.2 ⟨_, hof⟩)
  have htable :
      (Table.ofList ([negativeLabel].filterMap fun written => written.label.entry?)).get? "a".toList
        = some negativeLabel.label.text := by decide +kernel
  obtain ⟨message, hmessage, hcut⟩ := hspells.get? htable
  rw [hof] at hcut
  obtain rfl := Except.ok.inj hcut
  obtain ⟨entry, hentry, hsame⟩ := Option.map_eq_some_iff.1 hmessage
  have hclaimed := h negativeLabel _ messages hdump hdecode hplain entry
    (List.mem_of_find?_eq_some hentry)
  rw [hsame, hmerged] at hclaimed
  exact absurd hclaimed (by decide +kernel)

end Dump

end Dialogue
