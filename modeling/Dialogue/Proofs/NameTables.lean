import Dialogue.Proofs.DumpWriting
import Dialogue.Proofs.NameLines

/-!
# Whose text a name is

A heading keeps the first literal that follows it, also where that is the text of a later entry, and
the headings between the two are lost (`taken`, `decodeNames_taken`). Where no text follows an entry
without one each entry has its own text (`namesOf_taken`). The dump that `nameDump` writes for some
entries has their fields (`tableLines_nameDump`).
-/

namespace Dialogue.Dump

open Text

section Entries

/-- An entry of a name table. Its words are kept as they are written. -/
structure NameEntry where
  number : Nat
  name : Text
  tags : List ListedTag := []
  words : List Word := []
deriving DecidableEq, Repr

namespace NameEntry

/-- The values of the entry's literals. -/
def literals (entry : NameEntry) : List Text :=
  entry.words.filterMap fun word => word.literal.map trim

def fields (entry : NameEntry) : List NameField :=
  .index entry.number :: .label (trim entry.name) :: entry.literals.map .literal

/-- The digits of the entry's own heading. -/
def digits? : Heading → NameEntry → Option (List Text)
  | .index, entry => some [Text.ofNat entry.number]
  | .form, entry => (Heading.form.digits? (trim entry.name)).map (·.1)

/-- The key of the entry's own heading: its number, or the species and the form at the start of its
name. -/
def key? : Heading → NameEntry → Option NameKey
  | .index, entry => some (.index entry.number)
  | .form, entry =>
    match Heading.form.digits? (trim entry.name) with
    | some ([species, shape], _) =>
      some (.form (Text.ofNat (digitsValue species) ++ '_' :: Text.ofNat (digitsValue shape)))
    | _ => none

/-- The entry's own key with its own text. -/
def pair? (heading : Heading) (entry : NameEntry) : Option (NameKey × Text) := do
  let key ← entry.key? heading
  let literal ← entry.literals.head?
  some (key, unquote literal)

end NameEntry

/-- The names that are taken: a heading waits for the next literal, and the headings of the entries
in between are lost. -/
def taken (heading : Heading) :
    Option (List Text) → List NameEntry → List (List Text × Text)
  | _, [] => []
  | waiting, entry :: rest =>
    match waiting.or (entry.digits? heading), entry.literals with
    | some digits, literal :: _ => (digits, unquote literal) :: taken heading none rest
    | digits, _ => taken heading digits rest

variable {heading : Heading}

theorem run_literals (rest : List NameField) : ∀ literals : List Text,
    heading.run none (literals.map .literal ++ rest) = heading.run none rest
  | [] => rfl
  | literal :: literals => by
    have hstep : heading.step none (.literal literal) = ([], none) := by cases heading <;> rfl
    rw [List.map_cons, List.cons_append, Heading.run, hstep, List.nil_append]
    exact run_literals rest literals

/-- Behind its number and its label the heading of an entry waits, unless another one does. -/
theorem run_fields (entry : NameEntry) (waiting : Option (List Text)) (rest : List NameField) :
    heading.run waiting (entry.fields ++ rest)
      = heading.run (waiting.or (entry.digits? heading)) (entry.literals.map .literal ++ rest) := by
  cases waiting <;> cases heading <;> rfl

theorem run_entries : ∀ (waiting : Option (List Text)) (entries : List NameEntry),
    heading.run waiting (entries.flatMap NameEntry.fields) = taken heading waiting entries
  | _, [] => rfl
  | waiting, entry :: rest => by
    have ih := fun waiting => run_entries waiting rest
    rw [List.flatMap_cons, run_fields, taken]
    rcases waiting.or (entry.digits? heading) with _ | digits
    · rw [run_literals, ih]
    · rcases entry.literals with _ | ⟨literal, literals⟩
      · exact ih (some digits)
      · have hrest : heading.run none (literals.map .literal ++ rest.flatMap NameEntry.fields)
            = taken heading none rest := by rw [run_literals, ih]
        exact congrArg _ hrest

/-- The digits of an entry are those of its key, and can be read if they are short. -/
theorem readKey_digits? (heading : Heading) {entry : NameEntry}
    (hnumber : ShortRuns (Text.ofNat entry.number)) (hname : ShortRuns entry.name) :
    (entry.digits? heading = none ∧ entry.key? heading = none)
      ∨ ∃ digits key, entry.digits? heading = some digits ∧ entry.key? heading = some key
        ∧ readKey digits = .ok key := by
  cases heading with
  | index =>
    refine .inr ⟨_, _, rfl, rfl, ?_⟩
    have hread := readDigits_of_shortRuns (fun _ => isDecimal_of_mem_ofNat) hnumber
    rw [digitsValue_ofNat] at hread
    rw [readKey]
    · rw [List.flatten_singleton, hread]
      rfl
    · rintro species shape ⟨⟩
  | form =>
    rcases hdigits : Heading.form.digits? (trim entry.name) with _ | ⟨digits, left⟩
    · exact .inl ⟨by simp [NameEntry.digits?, hdigits], by simp [NameEntry.key?, hdigits]⟩
    · obtain ⟨blanks, species, shape, htext, rfl, -, hdec, hdec'⟩ := form_digits? hdigits
      have hshort := hname.of_isInfix (trim_isInfix entry.name)
      rw [htext] at hshort
      have hspecies : species <:+: blanks ++ formMarker ++ species ++ ['_'] ++ shape ++ left :=
        ⟨blanks ++ formMarker, ['_'] ++ shape ++ left, by simp only [List.append_assoc]⟩
      have hshape : shape <:+: blanks ++ formMarker ++ species ++ ['_'] ++ shape ++ left :=
        ⟨blanks ++ formMarker ++ species ++ ['_'], left, rfl⟩
      refine .inr ⟨_, _, by rw [NameEntry.digits?, hdigits]; rfl,
        by rw [NameEntry.key?, hdigits], ?_⟩
      rw [readKey, readDigits_of_shortRuns hdec (hshort.of_isInfix hspecies),
        readDigits_of_shortRuns hdec' (hshort.of_isInfix hshape)]
      rfl

theorem taken_of_wordless : ∀ {entries : List NameEntry} (waiting : Option (List Text)),
    (∀ entry ∈ entries, entry.literals = []) → taken heading waiting entries = []
  | [], _, _ => rfl
  | entry :: rest, waiting, h => by
    have ih := fun waiting =>
      taken_of_wordless waiting fun e he => h e (List.mem_cons_of_mem entry he)
    rw [taken, h entry List.mem_cons_self]
    rcases waiting.or (entry.digits? heading) with _ | digits <;> exact ih _

theorem pair?_of_wordless {entry : NameEntry} (h : entry.literals = []) :
    entry.pair? heading = none := by
  rcases hkey : entry.key? heading with _ | key <;> simp [NameEntry.pair?, hkey, h]

/-- Where no text follows a heading without one, each entry takes its own text. -/
theorem namesOf_taken : ∀ {entries : List NameEntry} (names : Names),
    (entries.Pairwise fun entry later =>
      (entry.key? heading).isSome → entry.literals = [] → later.literals = []) →
    (∀ entry ∈ entries, ShortRuns (Text.ofNat entry.number) ∧ ShortRuns entry.name) →
      namesOf names (taken heading none entries)
        = .ok (names.insertAll (entries.filterMap (NameEntry.pair? heading)))
  | [], _, _, _ => rfl
  | entry :: rest, names, hwords, hshort => by
    obtain ⟨hlater, hwords⟩ := List.pairwise_cons.1 hwords
    obtain ⟨⟨hnumber, hname⟩, hshort⟩ := List.forall_mem_cons.1 hshort
    have ih := fun names => namesOf_taken names hwords hshort
    rcases readKey_digits? heading hnumber hname with
      ⟨hdigits, hkey⟩ | ⟨digits, key, hdigits, hkey, hread⟩
    · have hpair : entry.pair? heading = none := by simp [NameEntry.pair?, hkey]
      rw [List.filterMap_cons_none hpair, ← ih names, taken, hdigits, Option.none_or]
    · rcases hliterals : entry.literals with _ | ⟨literal, literals⟩
      · -- a heading that waits gets no text any more
        have hrest := fun later hmem => hlater later hmem (by rw [hkey]; rfl) hliterals
        have hpairs : rest.filterMap (NameEntry.pair? heading) = [] :=
          List.filterMap_eq_nil_iff.2 fun later hmem => pair?_of_wordless (hrest later hmem)
        rw [List.filterMap_cons_none (pair?_of_wordless hliterals), hpairs, taken, hdigits,
          hliterals, Option.none_or]
        exact congrArg (namesOf names) (taken_of_wordless (some digits) hrest)
      · have hpair : entry.pair? heading = some (key, unquote literal) := by
          simp [NameEntry.pair?, hkey, hliterals]
        rw [List.filterMap_cons_some hpair, taken, hdigits, hliterals, Option.none_or]
        simp only [namesOf, hread]
        exact ih (names.insert key (unquote literal))

theorem decodeNames_taken (heading : Heading) {entries : List NameEntry} {lines : List Text}
    (h : TableLines (entries.flatMap NameEntry.fields) lines) :
    decodeNames heading (terminated lines) = namesOf ∅ (taken heading none entries) := by
  have hread : reading heading none (terminated lines) = taken heading none entries := by
    rw [reading_of_tableLines h, run_entries]
  exact congrArg (namesOf ∅) hread

end Entries

section Writer

/-- The lines of a word. Its literal stands as it is. -/
def rawWordLines (word : Word) : List Text :=
  ["    - patternID: 0".toList]
    ++ (word.event.map fun n => lineOf 6 false eventKey (ofInt n)).toList
    ++ [lineOf 6 false tagIndexKey ((word.tagIndex.map Text.ofNat).getD (ofInt (-1))),
      "      tagValue: 0".toList]
    ++ (word.literal.map fun l =>
      [lineOf 6 false literalKey l, "      strWidth: 42.5".toList]).getD []

def nameEntryLines (place : Nat) (entry : NameEntry) : List Text :=
  [lineOf 2 true "labelIndex:" (Text.ofNat place),
      lineOf 4 false arrayIndexKey (Text.ofNat entry.number),
      lineOf 4 false labelNameKey entry.name, "    styleInfo:".toList, "      styleIndex: 0".toList]
    ++ (if entry.tags = [] then ["    tagDataArray: []".toList]
      else "    tagDataArray:".toList :: entry.tags.flatMap tagLines)
    ++ ["    wordDataArray:".toList]
    ++ entry.words.flatMap rawWordLines

def nameItems : Nat → List NameEntry → List Text
  | _, [] => []
  | place, entry :: entries => nameEntryLines place entry ++ nameItems (place + 1) entries

/-- The lines of a dump with or without the mark of a message table. -/
def nameDump (marked : Bool) (entries : List NameEntry) : List Text :=
  ["%YAML 1.1".toList, "--- !u!114 &11400000".toList, "MonoBehaviour:".toList,
      "  m_Name: test".toList]
    ++ (if marked then ["  labelDataArray:".toList] else [])
    ++ nameItems 0 entries

/-- The name and the literals of the entry are of one line and hold no key. -/
def NameEntry.Plain (entry : NameEntry) : Prop :=
  FreeOf nameKeys entry.name ∧ ∀ word ∈ entry.words, ∀ l ∈ word.literal, FreeOf nameKeys l

instance (entry : NameEntry) : Decidable entry.Plain :=
  inferInstanceAs (Decidable (_ ∧ _))

theorem TableLines.append {fields others : List NameField} {lines rest : List Text}
    (h : TableLines fields lines) (hrest : TableLines others rest) :
    TableLines (fields ++ others) (lines ++ rest) := by
  induction h with
  | done => exact hrest
  | field hline _ ih => exact .field hline ih
  | other hline _ ih => exact .other hline ih

theorem tableLines_of_free : ∀ {lines : List Text}, (∀ line ∈ lines, FreeOf nameMarks line) →
    TableLines [] lines
  | [], _ => .done
  | _ :: _, h => .other (h _ List.mem_cons_self)
      (tableLines_of_free fun line hline => h line (List.mem_cons_of_mem _ hline))

theorem freeOf_space {text : Text} (h : FreeOf nameKeys text) : FreeOf nameKeys (' ' :: text) := by
  refine ⟨by simpa using h.1, fun key hkey hi => ?_⟩
  rcases List.infix_cons_iff.1 hi with hp | hi
  · obtain ⟨c, hhead, hblank, -⟩ := head_of_mark (List.mem_cons_of_mem _ hkey)
    obtain ⟨tail, rfl⟩ := List.head?_eq_some_iff.1 hhead
    rw [(List.cons_prefix_cons.1 hp).1] at hblank
    exact absurd hblank (by decide)
  · exact h.2 key hkey hi

theorem namedLine_lineOf (indent : Nat) (opens : Bool) {field : NameField} {value : Text}
    (h : FreeOf nameKeys value) (hvalue : trim value = field.field.2) :
    NamedLine field (lineOf indent opens field.field.1 value) := by
  have hspace : Blank [' '] := blank_replicate 1
  exact ⟨_, opens, ' ' :: value, blank_replicate indent, freeOf_space h, rfl,
    (trim_append hspace value).trans hvalue⟩

theorem sign_or_digit_of_mem_ofInt : ∀ {n : Int} {c : Char}, c ∈ ofInt n →
    c.isDigit = true ∨ c = '-'
  | .ofNat _, _, h => .inl (isDigit_of_mem_ofNat h)
  | .negSucc _, _, h => (List.mem_cons.1 h).symm.imp_left isDigit_of_mem_ofNat

theorem newline_not_mem_ofInt (n : Int) : '\n' ∉ ofInt n := fun h => by
  rcases sign_or_digit_of_mem_ofInt h with h | h <;> exact absurd h (by decide)

theorem silent_ofInt {mark : Text} (hmark : mark ∈ nameMarks) (n : Int) :
    Silent mark (ofInt n) := by
  obtain ⟨c, hhead, -, hdash, hdigit⟩ := head_of_mark hmark
  refine silent_of_not_mem hhead fun h => ?_
  rcases sign_or_digit_of_mem_ofInt h with h | h
  · rw [hdigit] at h
    cases h
  · exact hdash h

theorem freeOf_of_silent {text : Text} (hline : '\n' ∉ text)
    (h : ∀ mark ∈ nameMarks, Silent mark text) : FreeOf nameMarks text := by
  have hne : ∀ mark ∈ nameMarks, mark ≠ [] := by decide
  exact ⟨hline, fun mark hmark => (h mark hmark).absent (hne mark hmark)⟩

theorem freeOf_lineOf (indent : Nat) (opens : Bool) {key : Text} (hkey : FreeOf nameMarks key)
    (n : Int) : FreeOf nameMarks (lineOf indent opens key (ofInt n)) := by
  have hline : lineOf indent opens key (ofInt n)
      = List.replicate indent ' ' ++ dash opens ++ (key ++ [' ']) ++ ofInt n := by simp [lineOf]
  have hdash : '\n' ∉ dash opens := by cases opens <;> decide
  have hspace : ∀ mark ∈ nameMarks, ' ' ∉ mark := by decide
  rw [hline]
  refine freeOf_of_silent (by simp [hdash, newline_not_mem_ofInt, hkey.1]) fun mark hmark => ?_
  have hfront := silent_front hmark (blank_replicate indent) opens
  have hname := silent_concat (hspace mark hmark) (hkey.2 mark hmark)
  exact (hfront.append hname).append (silent_ofInt hmark n)

theorem freeOf_tagLines (tag : ListedTag) : ∀ line ∈ tagLines tag, FreeOf nameMarks line := by
  simp only [tagLines, List.forall_mem_append, List.forall_mem_singleton]
  refine ⟨⟨freeOf_lineOf 4 true (by decide +kernel) tag.id, ?_⟩, by decide +kernel⟩
  rcases tag.group with _ | n
  · simp
  · simpa using freeOf_lineOf 6 false (by decide +kernel) n

theorem tableLines_word {word : Word} (h : ∀ l ∈ word.literal, FreeOf nameKeys l) :
    TableLines ((word.literal.map fun l => NameField.literal (trim l)).toList)
      (rawWordLines word) := by
  rcases word with ⟨literal?, event?, index?⟩
  have hfree : TableLines [] (["    - patternID: 0".toList]
      ++ (event?.map fun n => lineOf 6 false eventKey (ofInt n)).toList
      ++ [lineOf 6 false tagIndexKey ((index?.map Text.ofNat).getD (ofInt (-1))),
        "      tagValue: 0".toList]) := by
    refine tableLines_of_free ?_
    simp only [List.forall_mem_append, List.forall_mem_cons]
    refine ⟨⟨⟨by decide +kernel, by simp⟩, ?_⟩, ?_, by decide +kernel, by simp⟩
    · rcases event? with _ | n
      · simp
      · simpa using freeOf_lineOf 6 false (by decide +kernel) n
    · obtain ⟨n, hn⟩ : ∃ n, (index?.map Text.ofNat).getD (ofInt (-1)) = ofInt n := by
        rcases index? with _ | i
        · exact ⟨-1, rfl⟩
        · exact ⟨i, rfl⟩
      rw [hn]
      exact freeOf_lineOf 6 false (by decide +kernel) n
  have hliteral : TableLines ((literal?.map fun l => NameField.literal (trim l)).toList)
      ((literal?.map fun l =>
        [lineOf 6 false literalKey l, "      strWidth: 42.5".toList]).getD []) := by
    rcases literal? with _ | l
    · exact .done
    · have hline : NamedLine (.literal (trim l)) (lineOf 6 false literalKey l) :=
        @namedLine_lineOf 6 false (.literal (trim l)) l (h l rfl) rfl
      have hwidth : FreeOf nameMarks "      strWidth: 42.5".toList := by decide +kernel
      exact .field hline (.other hwidth .done)
  exact hfree.append hliteral

theorem tableLines_words : ∀ {words : List Word},
    (∀ word ∈ words, ∀ l ∈ word.literal, FreeOf nameKeys l) →
      TableLines ((words.filterMap fun word => word.literal.map trim).map .literal)
        (words.flatMap rawWordLines)
  | [], _ => .done
  | word :: words, h => by
    obtain ⟨hword, hwords⟩ := List.forall_mem_cons.1 h
    have hlines := (tableLines_word hword).append (tableLines_words hwords)
    rw [List.flatMap_cons]
    rcases hliteral : word.literal with _ | l
    · rw [hliteral] at hlines
      rwa [List.filterMap_cons_none (by rw [hliteral]; rfl)]
    · rw [hliteral] at hlines
      rwa [List.filterMap_cons_some (by rw [hliteral]; rfl)]

theorem tableLines_entry (place : Nat) {entry : NameEntry} (h : entry.Plain) :
    TableLines entry.fields (nameEntryLines place entry) := by
  have hplace : FreeOf nameMarks (lineOf 2 true "labelIndex:" (Text.ofNat place)) := by
    have hkey : FreeOf nameMarks "labelIndex:" := by decide +kernel
    exact freeOf_lineOf 2 true hkey place
  have hdigits : FreeOf nameKeys (Text.ofNat entry.number) := by
    have hmarks : FreeOf nameMarks (Text.ofNat entry.number) :=
      freeOf_of_silent (newline_not_mem_ofInt entry.number) fun _ hmark =>
        silent_ofInt hmark entry.number
    exact ⟨hmarks.1, fun key hkey => hmarks.2 key (List.mem_cons_of_mem _ hkey)⟩
  have hnumber : NamedLine (.index entry.number)
      (lineOf 4 false arrayIndexKey (Text.ofNat entry.number)) :=
    @namedLine_lineOf 4 false (.index entry.number) _ hdigits (trim_ofInt entry.number)
  have hname : NamedLine (.label (trim entry.name)) (lineOf 4 false labelNameKey entry.name) :=
    @namedLine_lineOf 4 false (.label (trim entry.name)) _ h.1 rfl
  have hstyle : TableLines [] ["    styleInfo:".toList, "      styleIndex: 0".toList] :=
    tableLines_of_free (by decide +kernel)
  have hhead := TableLines.other hplace (.field hnumber (.field hname hstyle))
  have htags : TableLines [] (if entry.tags = [] then ["    tagDataArray: []".toList]
      else "    tagDataArray:".toList :: entry.tags.flatMap tagLines) := by
    refine tableLines_of_free ?_
    split
    · decide +kernel
    · refine List.forall_mem_cons.2 ⟨by decide +kernel, fun line hline => ?_⟩
      obtain ⟨tag, -, hline⟩ := List.mem_flatMap.1 hline
      exact freeOf_tagLines tag line hline
  have hwords : TableLines [] ["    wordDataArray:".toList] :=
    tableLines_of_free (by decide +kernel)
  exact ((hhead.append htags).append hwords).append (tableLines_words h.2)

theorem tableLines_items : ∀ (place : Nat) {entries : List NameEntry},
    (∀ entry ∈ entries, entry.Plain) →
      TableLines (entries.flatMap NameEntry.fields) (nameItems place entries)
  | _, [], _ => .done
  | place, entry :: entries, h => by
    obtain ⟨hentry, hentries⟩ := List.forall_mem_cons.1 h
    exact (tableLines_entry place hentry).append (tableLines_items (place + 1) hentries)

/-- A dump that is written for some entries has their fields. -/
theorem tableLines_nameDump (marked : Bool) {entries : List NameEntry}
    (h : ∀ entry ∈ entries, entry.Plain) :
    TableLines (entries.flatMap NameEntry.fields) (nameDump marked entries) := by
  have hfront : TableLines [] (["%YAML 1.1".toList, "--- !u!114 &11400000".toList,
      "MonoBehaviour:".toList, "  m_Name: test".toList]
        ++ if marked then ["  labelDataArray:".toList] else []) := by
    refine tableLines_of_free ?_
    cases marked <;> decide +kernel
  exact hfront.append (tableLines_items 0 h)

end Writer

/-- A dump with the fields of some entries is read as the names that are taken there. Where no text
follows a heading without one, these are the entries' own: a later one of two with one key gives the
name. -/
theorem decodeNames_of_tableLines (heading : Heading) {entries : List NameEntry}
    {lines : List Text} (h : TableLines (entries.flatMap NameEntry.fields) lines) :
    decodeNames heading (terminated lines) = namesOf ∅ (taken heading none entries)
      ∧ ((entries.Pairwise fun entry later =>
          (entry.key? heading).isSome → entry.literals = [] → later.literals = []) →
        (∀ entry ∈ entries, ShortRuns (Text.ofNat entry.number) ∧ ShortRuns entry.name) →
          decodeNames heading (terminated lines)
            = .ok (.ofList (entries.filterMap (NameEntry.pair? heading)))) := by
  refine ⟨decodeNames_taken heading h, fun hwords hshort => ?_⟩
  rw [decodeNames_taken heading h]
  exact namesOf_taken ∅ hwords hshort

/-- A form, an entry whose name follows a word without text, and one without words. -/
def capEntries : List NameEntry :=
  [{ number := 25
     name := "ZKN_FORM_025_001"
     tags := [{ id := 0, group := some 1 }]
     words := [{ literal := some "'Partner Cap'".toList, event := some 0 }] },
   { number := 26
     name := "MONSNAME_026"
     words := [{ tagIndex := some 0 }, { literal := some "Raichu".toList },
       { literal := some "!".toList }] },
   { number := 27, name := "MONSNAME_027" }]

theorem decodeNames_of_tableLines_cap :
    TableLines (capEntries.flatMap NameEntry.fields) (nameDump true capEntries)
      ∧ decodeNames .index (terminated (nameDump true capEntries))
        = .ok (.ofList [(.index 25, "Partner Cap".toList), (.index 26, "Raichu".toList)])
      ∧ decodeNames .form (terminated (nameDump true capEntries))
        = .ok (.ofList [(.form "25_1", "Partner Cap".toList)]) := by
  have hlines : TableLines (capEntries.flatMap NameEntry.fields) (nameDump true capEntries) :=
    tableLines_nameDump true (by decide +kernel)
  have hlength : ∀ entry ∈ capEntries, (Text.ofNat entry.number).length ≤ maxDigits
      ∧ entry.name.length ≤ maxDigits := by decide +kernel
  have hshort : ∀ entry ∈ capEntries,
      ShortRuns (Text.ofNat entry.number) ∧ ShortRuns entry.name := fun entry hentry =>
    (hlength entry hentry).imp shortRuns_of_length shortRuns_of_length
  have hown : ∀ heading : Heading, capEntries.Pairwise fun entry later =>
      (entry.key? heading).isSome → entry.literals = [] → later.literals = [] := by
    intro heading
    cases heading <;> decide +kernel
  have hindex : capEntries.filterMap (NameEntry.pair? .index)
      = [(.index 25, "Partner Cap".toList), (.index 26, "Raichu".toList)] := by decide +kernel
  have hform : capEntries.filterMap (NameEntry.pair? .form)
      = [(.form "25_1", "Partner Cap".toList)] := by decide +kernel
  refine ⟨hlines, ?_, ?_⟩
  · rw [← hindex]
    exact (decodeNames_of_tableLines .index hlines).2 (hown .index) hshort
  · rw [← hform]
    exact (decodeNames_of_tableLines .form hlines).2 (hown .form) hshort

/-- The first of two entries has no words. -/
def silentEntries : List NameEntry :=
  [{ number := 0, name := "MONSNAME_000" },
   { number := 1, name := "MONSNAME_001", words := [{ literal := some "Second".toList }] }]

theorem not_own_of_wordless : ¬ ∀ (heading : Heading) (marked : Bool) (entries : List NameEntry),
    (∀ entry ∈ entries, entry.Plain) → decodeNames heading (terminated (nameDump marked entries))
      = .ok (.ofList (entries.filterMap (NameEntry.pair? heading))) := by
  intro hclaim
  have hplain : ∀ entry ∈ silentEntries, entry.Plain := by decide +kernel
  have hown := hclaim .index true silentEntries hplain
  rw [decodeNames_taken .index (tableLines_nameDump true hplain)] at hown
  have htaken : namesOf ∅ (taken .index none silentEntries)
      = .ok (.ofList [(.index 0, "Second".toList)]) := by rfl
  have hpairs : silentEntries.filterMap (NameEntry.pair? .index)
      = [(.index 1, "Second".toList)] := by decide +kernel
  rw [htaken, hpairs] at hown
  cases hown

end Dialogue.Dump
