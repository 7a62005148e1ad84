import Dialogue.Proofs.Blanks
import Dialogue.Proofs.FileEncodings
import Dialogue.Proofs.Lines
import Dialogue.Proofs.Locating
import Dialogue.Store
import Mathlib.Logic.Relation

/-!
# Line ends and blank lines of a dump

What a text says is the lines in it that are not blank (`contents`). A line end cuts these in two,
whatever stands around it (`contents_append`), so they stay the same where a line end takes the
place of another, or a blank line is put in or taken out (`contents_of_relaid`). The key of the
label list stands in one of them, and a blank line changes nothing in any state, so a dump is
decoded by its contents alone (`decode_congr`). A file that is read by its lines has the contents of
its text (`decode_of_relaid`).
-/

namespace Dialogue

namespace Text

section Contents

variable {line text front back key : Text} {c : Char}

/-- The lines of a text that hold more than blanks. -/
def contents (text : Text) : List Text := (lines text).filter fun line => !decide (Blank line)

/-- A text is one line, or a line with a line end behind it and a text behind that. -/
theorem line_induction {motive : Text → Prop} (one : ∀ line, OneLine line → motive line)
    (more : ∀ line c rest, OneLine line → isLineEnd c = true → motive rest →
      motive (line ++ c :: rest)) : ∀ text, motive text := by
  have hfrom : ∀ text line, OneLine line → motive (line ++ text) := by
    intro text
    induction text with
    | nil =>
      intro line hline
      rw [List.append_nil]
      exact one line hline
    | cons c text ih =>
      intro line hline
      by_cases hc : isLineEnd c = true
      · exact more line c text hline hc (ih [] (by simp [OneLine]))
      · rw [List.append_cons]
        refine ih (line ++ [c]) (oneLine_append.2 ⟨hline, ?_⟩)
        simpa [OneLine] using hc
  exact fun text => hfrom text [] (by simp [OneLine])

theorem contents_of_oneLine (h : OneLine line) :
    contents line = if Blank line then [] else [line] := by
  rcases line with _ | ⟨c, line⟩
  · rfl
  · rw [contents, lines_of_oneLine h]
    split_ifs with hblank <;> simp [hblank]

theorem contents_of_blank (h : Blank text) : contents text = [] := by
  refine List.filter_eq_nil_iff.2 fun line hline => ?_
  have hpart := (infix_of_lines text).2 line hline
  have hblank : Blank line := fun c hc => h c (hpart.subset hc)
  simpa using hblank

/-- Behind a line end, or behind both characters of one, the text goes on with the same contents. -/
theorem exists_lines_lineEnd (hc : isLineEnd c = true) (rest : Text) :
    ∃ next, lines (c :: rest) = [] :: lines next ∧ contents next = contents rest := by
  have hsimple : ∀ {c rest}, isLineEnd c = true → (c = '\r' → rest.head? ≠ some '\n') →
      lines (c :: rest) = [] :: lines rest := by
    intro c rest hc hsingle
    rw [lines.eq_3 c rest fun more hreturn hmore => hsingle hreturn (by simp [hmore]), if_pos hc]
  by_cases hpair : c = '\r' ∧ rest.head? = some '\n'
  · obtain ⟨rfl, hnewline⟩ := hpair
    obtain ⟨more, rfl⟩ := List.head?_eq_some_iff.1 hnewline
    refine ⟨more, rfl, ?_⟩
    rw [contents, contents, lines_newline, List.filter_cons_of_neg (by decide)]
  · exact ⟨rest, hsimple hc fun hreturn hnewline => hpair ⟨hreturn, hnewline⟩, rfl⟩

theorem exists_lines_append (hline : OneLine line) (hc : isLineEnd c = true) (rest : Text) :
    ∃ next, lines (line ++ c :: rest) = line :: lines next ∧ contents next = contents rest := by
  induction line with
  | nil => exact exists_lines_lineEnd hc rest
  | cons d line ih =>
    obtain ⟨next, hnext, hcontents⟩ := ih fun e he => hline e (List.mem_cons_of_mem d he)
    refine ⟨next, ?_, hcontents⟩
    rw [List.cons_append, lines_cons _ (hline d List.mem_cons_self), hnext]
    rfl

theorem contents_line_append (hline : OneLine line) (hc : isLineEnd c = true) (rest : Text) :
    contents (line ++ c :: rest) = contents line ++ contents rest := by
  obtain ⟨next, hnext, hcontents⟩ := exists_lines_append hline hc rest
  rw [contents_of_oneLine hline, ← hcontents, contents, hnext, List.filter_cons]
  by_cases hblank : Blank line <;> simp [hblank, contents]

/-- A line end cuts the contents of a text in two. -/
theorem contents_append (hc : isLineEnd c = true) (front back : Text) :
    contents (front ++ c :: back) = contents front ++ contents back := by
  induction front using line_induction with
  | one line hline => exact contents_line_append hline hc back
  | more line d rest hline hd ih =>
    rw [List.append_assoc, List.cons_append, contents_line_append hline hd, ih,
      contents_line_append hline hd, List.append_assoc]

/-- A needle without the character at which a text is cut stands in one of the two parts. -/
theorem infix_append_cons_iff (hc : c ∉ key) (hne : key ≠ []) :
    key <:+: front ++ c :: back ↔ key <:+: front ∨ key <:+: back := by
  have hcut : ∀ {start : Text}, start <+: c :: back → c ∉ start → start = [] := by
    rintro (_ | ⟨d, start⟩) hstart hmem
    · rfl
    · exact absurd ((List.cons_prefix_cons.1 hstart).1 ▸ List.mem_cons_self) hmem
  rw [List.infix_append_iff, List.infix_cons_iff]
  constructor
  · rintro (hfront | (hstart | hback) | ⟨first, second, rfl, hfirst, hsecond⟩)
    · exact .inl hfront
    · exact absurd (hcut hstart hc) hne
    · exact .inr hback
    · have hnil := hcut hsecond fun hmem => hc (List.mem_append_right first hmem)
      rw [hnil, List.append_nil]
      exact .inl hfirst.isInfix
  · rintro (hfront | hback)
    · exact .inl hfront
    · exact .inr (.inl (.inr hback))

/-- What holds no line end and more than blanks stands in a text if it stands in its contents. -/
theorem occursIn_iff_contents (hone : OneLine key) (hsolid : ¬ Blank key) (text : Text) :
    occursIn key text = true ↔ ∃ line ∈ contents text, key <:+: line := by
  have hne : key ≠ [] := by
    rintro rfl
    exact hsolid (by simp [Blank])
  have hown : ∀ {line}, OneLine line →
      (key <:+: line ↔ ∃ other ∈ contents line, key <:+: other) := by
    intro line hline
    rw [contents_of_oneLine hline]
    split_ifs with hblank
    · simp only [List.not_mem_nil, false_and, exists_false, iff_false]
      exact fun hpart => hsolid fun c hc => hblank c (hpart.subset hc)
    · simp
  rw [occursIn_iff]
  induction text using line_induction with
  | one line hline => exact hown hline
  | more line c rest hline hc ih =>
    have hfree : c ∉ key := fun hmem => by simp [hone c hmem] at hc
    rw [infix_append_cons_iff hfree hne, contents_line_append hline hc]
    simp only [List.mem_append, or_and_right, exists_or]
    exact or_congr (hown hline) ih

/-- Lines that are joined have the contents of the text that they were cut from. -/
theorem contents_unlines_lines (text : Text) : contents (unlines (lines text)) = contents text := by
  rcases lines_unlines (oneLine_of_mem_lines text) with heq | heq
  · rw [contents, contents, ← heq]
  · rw [contents, contents]
    conv_rhs => rw [heq]
    rw [List.filter_append, List.filter_cons_of_neg (by decide), List.filter_nil, List.append_nil]

end Contents

section Relaid

variable {text other front : Text} {ending : Text}

/-- What ends a line: one line end, or a carriage return and a line feed together. -/
inductive Terminator : Text → Prop
  | single {c : Char} (h : isLineEnd c = true) : Terminator [c]
  | pair : Terminator ['\r', '\n']

/-- The text behind stands at the start of a line. -/
def StartsLine (front : Text) : Prop :=
  front = [] ∨ ∃ start ending, Terminator ending ∧ front = start ++ ending

/-- A change of a text that leaves its contents as they are: another terminator in the place of one,
or one more blank line, in front of a line or behind the last one. -/
inductive Relays : Text → Text → Prop
  | terminator (front back : Text) {old new : Text} (hold : Terminator old)
      (hnew : Terminator new) : Relays (front ++ old ++ back) (front ++ new ++ back)
  | blankLine (front blank back : Text) {ending : Text} (hfront : StartsLine front)
      (hblank : Blank blank) (hending : Terminator ending) :
      Relays (front ++ back) (front ++ (blank ++ ending) ++ back)
  | lastLine {blank ending : Text} (front : Text) (hending : Terminator ending)
      (hblank : Blank blank) : Relays front (front ++ ending ++ blank)

/-- Two texts that differ in their terminators and blank lines: each is made of the other by such
changes and their undoing. -/
def Relaid : Text → Text → Prop := Relation.EqvGen Relays

theorem contents_terminator (h : Terminator ending) (front back : Text) :
    contents (front ++ ending ++ back) = contents front ++ contents back := by
  rw [List.append_assoc]
  cases h with
  | single hc => exact contents_append hc front back
  | pair =>
    have hreturn : contents ('\n' :: back) = contents back :=
      contents_append isLineEnd_newline [] back
    rw [← hreturn]
    exact contents_append (by decide) front ('\n' :: back)

theorem contents_startsLine (h : StartsLine front) (back : Text) :
    contents (front ++ back) = contents front ++ contents back := by
  rcases h with rfl | ⟨start, ending, hending, rfl⟩
  · rfl
  · have hnil : contents (start ++ ending) = contents start := by
      rw [← List.append_nil (start ++ ending), contents_terminator hending]
      exact List.append_nil _
    rw [contents_terminator hending, hnil]

theorem contents_of_relays (h : Relays text other) : contents text = contents other := by
  cases h with
  | terminator front back hold hnew => rw [contents_terminator hold, contents_terminator hnew]
  | blankLine _ _ back hfront hblank hending =>
    rw [contents_startsLine hfront, ← List.append_assoc, contents_terminator hending,
      contents_startsLine hfront, contents_of_blank hblank, List.append_nil]
  | lastLine _ hending hblank =>
    rw [contents_terminator hending, contents_of_blank hblank, List.append_nil]

theorem contents_of_relaid (h : Relaid text other) : contents text = contents other := by
  induction h with
  | rel _ _ h => exact contents_of_relays h
  | refl _ => rfl
  | symm _ _ _ ih => exact ih.symm
  | trans _ _ _ _ _ first second => exact first.trans second

end Relaid

end Text

namespace Dump

open Text

section Decoding

variable {line text other : Text}

theorem readLine_blank (h : Blank line) (state : State) (draft : Draft) :
    readLine maxReadings state draft (Line.ofText line) = (draft, .ok state) := by
  have hline : Line.ofText line = ⟨[], false⟩ := by
    rw [Line.ofText, trim_of_blank h]
  rw [hline]
  cases state <;> rfl

/-- Blank lines are passed over in every state. -/
theorem readLines_solid : ∀ (all : List Text) (state : State) (draft : Draft),
    readLines state draft ((all.filter fun line => !decide (Blank line)).map Line.ofText)
      = readLines state draft (all.map Line.ofText)
  | [], _, _ => rfl
  | line :: all, state, draft => by
    by_cases hblank : Blank line
    · rw [List.filter_cons_of_neg (by simp [hblank]), readLines_solid all, List.map_cons, readLines,
        readLine_blank hblank]
    · rw [List.filter_cons_of_pos (by simp [hblank]), List.map_cons, List.map_cons, readLines,
        readLines]
      rcases readLine maxReadings state draft (Line.ofText line) with ⟨after, e | next⟩
      · rfl
      · exact readLines_solid all next after

/-- A dump is decoded by its contents. -/
theorem decode_congr (layout : Layout) (h : contents text = contents other) :
    decode layout text = decode layout other := by
  have hmark : occursIn labelArrayKey text = occursIn labelArrayKey other := by
    rw [Bool.eq_iff_iff, occursIn_iff_contents (by decide) (by decide),
      occursIn_iff_contents (by decide) (by decide), h]
  have hread : readLines layout.start {} ((lines text).map Line.ofText)
      = readLines layout.start {} ((lines other).map Line.ofText) := by
    rw [← readLines_solid, ← contents, h, contents, readLines_solid]
  rw [decode, decode, hmark, hread]

/-- The kind of the dumps that are read in a layout. -/
def Layout.kind : Layout → Kind
  | .table => .messages
  | .labelList => .speakers

theorem decode_kind (layout : Layout) (text : Text) :
    layout.kind.decode text = (decode layout text).map .messages := by
  cases layout <;> rfl

/-- A dump in a file is decoded as its text is, and so is every text with the same lines but other
terminators and more or fewer blank lines. -/
theorem decode_of_relaid (layout : Layout) (text : Text) :
    (∀ (tree : FileTree) (path : Text), tree.readBytes path = .ok (Utf8.encode text) →
      text.head? ≠ some '\uFEFF' →
      Store.decodeFile tree layout.kind path = (decode layout text).map .messages)
    ∧ ∀ other, Relaid text other → decode layout other = decode layout text := by
  refine ⟨fun tree path hfile hstart => ?_, fun other h => ?_⟩
  · have htext : tree.readText path = .ok text := by
      rw [FileTree.readText, hfile, Except.map, Encoding.read_encode,
        Encoding.dropMark_of_head? hstart]
    have hlines : tree.readLines path = .ok (lines text) := by
      rw [FileTree.readLines, htext]
      rfl
    rw [Store.decodeFile, FileTree.readLines?_eq_some_iff.2 hlines]
    exact (decode_kind layout _).trans
      (congrArg (Except.map _) (decode_congr layout (contents_unlines_lines text)))
  · exact decode_congr layout (contents_of_relaid h).symm

/-- The lines of a dump, of which the next two texts are made. -/
def arrayPart : Text := "labelDataArray:"

def labelPart : Text := "- labelName: A"

def strPart : Text := "- str: x"

/-- A dump with an empty line. -/
def plainText : Text := arrayPart ++ '\n' :: labelPart ++ '\n' :: '\n' :: strPart

/-- The dump with other terminators, and with a blank line elsewhere. -/
def mixedText : Text := arrayPart ++ '\r' :: labelPart ++ '\r' :: '\n' :: strPart ++ ['\u2028', '\t']

def plainTree : FileTree := ⟨[], .ofList [([['a']], .file (Utf8.encode plainText))]⟩

theorem relaid_mixedText : Relaid plainText mixedText := by
  have hfeed : Terminator ['\n'] := .single (by decide)
  have hreturn : Terminator ['\r'] := .single (by decide)
  have hstart : StartsLine (arrayPart ++ '\n' :: labelPart ++ ['\n']) := .inr ⟨_, _, hfeed, rfl⟩
  have hempty : Relays (arrayPart ++ '\n' :: labelPart ++ '\n' :: strPart) plainText := by
    simpa [plainText] using Relays.blankLine _ [] strPart hstart (by decide) hfeed
  have hsingle : Relays (arrayPart ++ '\n' :: labelPart ++ '\n' :: strPart)
      (arrayPart ++ '\r' :: labelPart ++ '\n' :: strPart) := by
    simpa using Relays.terminator arrayPart (labelPart ++ '\n' :: strPart) hfeed hreturn
  have hpair : Relays (arrayPart ++ '\r' :: labelPart ++ '\n' :: strPart)
      (arrayPart ++ '\r' :: labelPart ++ '\r' :: '\n' :: strPart) := by
    simpa using Relays.terminator (arrayPart ++ '\r' :: labelPart) strPart hfeed .pair
  have hlast : Relays (arrayPart ++ '\r' :: labelPart ++ '\r' :: '\n' :: strPart) mixedText := by
    have hend : Terminator ['\u2028'] := .single (by decide)
    have hblank : Blank ['\t'] := by decide
    simpa [mixedText] using Relays.lastLine
      (arrayPart ++ '\r' :: labelPart ++ '\r' :: '\n' :: strPart) hend hblank
  exact .trans _ _ _ (.symm _ _ (.rel _ _ hempty)) (.trans _ _ _ (.rel _ _ hsingle)
    (.trans _ _ _ (.rel _ _ hpair) (.rel _ _ hlast)))

theorem decode_of_relaid_mixed :
    plainTree.readBytes ['a'] = .ok (Utf8.encode plainText) ∧ plainText.head? ≠ some '\uFEFF'
      ∧ Relaid plainText mixedText ∧ (decode .table plainText).toOption.isSome = true
      ∧ Store.decodeFile plainTree .messages ['a'] = (decode .table mixedText).map .messages := by
  have hfile : plainTree.readBytes ['a'] = .ok (Utf8.encode plainText) := by decide +kernel
  have hstart : plainText.head? ≠ some '\uFEFF' := by decide
  obtain ⟨hread, hrelaid⟩ := decode_of_relaid .table plainText
  refine ⟨hfile, hstart, relaid_mixedText, by decide +kernel, ?_⟩
  rw [hrelaid mixedText relaid_mixedText]
  exact hread plainTree ['a'] hfile hstart

end Decoding

end Dump

end Dialogue
