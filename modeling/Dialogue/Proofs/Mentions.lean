import Dialogue.Proofs.Corpus
import Dialogue.Proofs.WholeWords
import Dialogue.Script.Report

/-!
# What a report says of the lines that an index knows

An index and a report read the same lines, each in its own way: the index reads the code of a line,
the report looks for a whole word in front of two slashes. What the report says of a line agrees
with the index, and a line that the index knows is reported unless a literal hides the word
(`covers_of_report`). Literals with slashes do occur, so not every line that an index knows is
reported (`not_covers_of_literal`).
-/

namespace Dialogue.Script

namespace Index

/-- The declarations of a label that an index knows, in their order. -/
def declarations (index : Index) (name : Text) : List Definition :=
  (index.duplicates.get? name).getD (index.definition? name).toList

/-- An index knows that a line declares a label. -/
def Declares (index : Index) (label file : Text) (line : Nat) : Prop :=
  ⟨label, file, line⟩ ∈ index.declarations label

/-- An index knows that a line names a label. -/
def Names (index : Index) (label file : Text) (line : Nat) : Prop :=
  ⟨file, line, label⟩ ∈ index.callersOf label

end Index

/-- A literal hides a word on a line of a file. -/
def HiddenAt (tree : FileTree) (word file : Text) (line : Nat) : Prop :=
  ∃ lines text, tree.readLines file = .ok lines ∧ lines[line]? = some text ∧ Hides word text

/-- A report of a word says of each line what an index knows of it, and leaves out none of the lines
that the index knows but the hidden ones. -/
structure Covers (index : Index) (hidden : Text → Nat → Prop) (word : Text)
    (found : List Mention) : Prop where
  definition : ∀ m ∈ found, m.usage = .definition ↔ index.Declares word m.file m.line
  transfer : ∀ m ∈ found, (m.usage = .jump ∨ m.usage = .call)
    ↔ index.Names word m.file m.line ∧ ¬ index.Declares word m.file m.line
  reported : ∀ file line, index.Declares word file line ∨ index.Names word file line →
    ((∃ m ∈ found, m.file = file ∧ m.line = line) ↔ ¬ hidden file line)

/-- One of the files can be read and has the text on a line. -/
def LineAt (tree : FileTree) (paths : List Text) (file : Text) (line : Nat) (text : Text) : Prop :=
  file ∈ paths ∧ ∃ lines, tree.readLines file = .ok lines ∧ lines[line]? = some text

variable {tree : FileTree} {paths : List Text} {word file : Text} {line : Nat}

theorem LineAt.unique {text other : Text} (h : LineAt tree paths file line text)
    (ho : LineAt tree paths file line other) : text = other := by
  obtain ⟨-, lines, hread, hline⟩ := h
  obtain ⟨-, others, hothers, hother⟩ := ho
  rw [hread] at hothers
  cases hothers
  exact Option.some.inj (hline.symm.trans hother)

theorem lineAt_iff {text : Text} : LineAt tree paths file line text
    ↔ ∃ script ∈ readable tree paths, script.1 = file ∧ script.2[line]? = some text := by
  constructor
  · rintro ⟨hpath, lines, hread, hline⟩
    exact ⟨(file, lines), mem_readable.2 ⟨hpath, hread⟩, rfl, hline⟩
  · rintro ⟨⟨file, lines⟩, hscript, rfl, hline⟩
    obtain ⟨hpath, hread⟩ := mem_readable.1 hscript
    exact ⟨hpath, lines, hread, hline⟩

/-! ## The lines that an index knows -/

/-- All declarations of a name are known, whether it was declared once or more often. -/
theorem Records.declarations_eq {index : Index} {declarations : List Definition}
    {sites : List CallSite} (h : Records index declarations sites) (name : Text) :
    index.declarations name = declarationsOf name declarations := by
  unfold Index.declarations
  rw [h.duplicates, h.definition]
  match hds : declarationsOf name declarations with
  | [] => rfl
  | [_] => rfl
  | _ :: _ :: _ => simp

theorem declares_ofFiles {index : Index} (h : (Index.ofFiles tree paths).2 = .ok index) :
    index.Declares word file line
      ↔ ∃ text, LineAt tree paths file line text ∧ label? text = some word := by
  rw [Index.Declares, (records_ofFiles h).declarations_eq, declarationsOf,
    List.mem_filter, mem_declaredIn]
  simp only [lineAt_iff, decide_true, and_true]
  constructor
  · rintro ⟨script, hscript, hfile, text, htext, hlabel⟩
    exact ⟨text, ⟨script, hscript, hfile, htext⟩, hlabel⟩
  · rintro ⟨text, ⟨script, hscript, hfile, htext⟩, hlabel⟩
    exact ⟨script, hscript, hfile, text, htext, hlabel⟩

theorem names_ofFiles {index : Index} (h : (Index.ofFiles tree paths).2 = .ok index) :
    index.Names word file line
      ↔ ∃ text, LineAt tree paths file line text ∧ ∃ r ∈ references text, r.target = word := by
  rw [Index.Names, (records_ofFiles h).callersOf_eq, sitesOf, List.mem_filter,
    mem_sitesIn]
  simp only [lineAt_iff, decide_true, and_true]
  constructor
  · rintro ⟨script, hscript, hfile, text, htext, hreference⟩
    exact ⟨text, ⟨script, hscript, hfile, htext⟩, hreference⟩
  · rintro ⟨text, ⟨script, hscript, hfile, htext⟩, hreference⟩
    exact ⟨script, hscript, hfile, text, htext, hreference⟩

/-! ## The lines that a report lists -/

def mentionsOn (word file : Text) (line : Nat) (text : Text) : List Mention :=
  if mentions word text then [⟨file, line, Text.trim text, usage text word⟩] else []

theorem mentionsFrom_eq_collectFrom (word file : Text) : ∀ (line : Nat) (lines : List Text),
    mentionsFrom word file line lines = collectFrom (mentionsOn word file) line lines
  | _, [] => rfl
  | line, text :: rest => by
    have ih := mentionsFrom_eq_collectFrom word file (line + 1) rest
    simp only [mentionsFrom, ih]
    unfold collectFrom mentionsOn
    rw [List.zipIdx_cons, List.flatMap_cons]
    split_ifs <;> rfl

/-- The mentions of the scripts in the order of their files and lines. -/
theorem report_eq_flatMap (tree : FileTree) (word : Text) : ∀ paths : List Text,
    (∀ path ∈ paths, Path.holdsNull path = false) → (report tree word paths).2
      = .ok ((readable tree paths).flatMap fun script =>
        collectFrom (mentionsOn word script.1) 0 script.2)
  | [], _ => rfl
  | path :: rest, h => by
    obtain ⟨hpath, hrest⟩ := List.forall_mem_cons.1 h
    have ih := report_eq_flatMap tree word rest hrest
    rcases hread : tree.readLines path with (cause | e) | lines
    · rw [readable_of_error hread]
      simpa only [report, hread] using ih
    · rw [(tree.readLines_eq_notAPath_iff e).1 hread] at hpath
      cases hpath
    · rw [readable_of_ok hread, List.flatMap_cons, ← mentionsFrom_eq_collectFrom]
      simp only [report, hread, ih, Except.map]

/-- No report is made if one of the texts is no path. -/
theorem report_eq_error (tree : FileTree) (word : Text) : ∀ {paths : List Text},
    (∃ path ∈ paths, Path.holdsNull path = true) → (report tree word paths).2 = .error {}
  | path :: rest, h => by
    by_cases hpath : Path.holdsNull path = true
    · simp only [report, (tree.readLines_eq_notAPath_iff {}).2 hpath]
    have ih : (report tree word rest).2 = .error {} :=
      report_eq_error tree word (by simpa [hpath] using h)
    rcases hread : tree.readLines path with (cause | e) | lines
    · simpa only [report, hread] using ih
    · exact absurd ((tree.readLines_eq_notAPath_iff e).1 hread) hpath
    · simp only [report, hread, ih, Except.map]

theorem mem_report {found : List Mention} {m : Mention}
    (hpaths : ∀ path ∈ paths, Path.holdsNull path = false)
    (h : (report tree word paths).2 = .ok found) : m ∈ found ↔ ∃ text,
      LineAt tree paths m.file m.line text ∧ mentions word text = true
        ∧ m.text = Text.trim text ∧ m.usage = usage text word := by
  rw [report_eq_flatMap tree word paths hpaths] at h
  obtain rfl := Except.ok.inj h
  simp only [List.mem_flatMap, mem_collectFrom, mentionsOn, lineAt_iff]
  constructor
  · rintro ⟨script, hscript, n, text, htext, hm⟩
    split_ifs at hm with hmentions
    · obtain rfl := List.mem_singleton.1 hm
      exact ⟨text, ⟨script, hscript, rfl, htext⟩, hmentions, rfl, rfl⟩
    · cases hm
  · rintro ⟨text, ⟨script, hscript, hfile, htext⟩, hmentions, hshown, husage⟩
    refine ⟨script, hscript, m.line, text, htext, ?_⟩
    rw [if_pos hmentions, List.mem_singleton, hfile, ← hshown, ← husage]

/-! ## What a line does with a word -/

theorem usage_eq_definition_iff {text : Text} :
    usage text word = .definition ↔ label? text = some word := by
  unfold usage
  split_ifs with hlabel
  · exact iff_of_true rfl hlabel
  · refine iff_of_false ?_ hlabel
    split
    · rename_i r _
      cases r.transfer <;> exact nofun
    · exact nofun

theorem usage_transfers_iff {text : Text} : (usage text word = .jump ∨ usage text word = .call)
    ↔ (∃ r ∈ references text, r.target = word) ∧ label? text ≠ some word := by
  by_cases hlabel : label? text = some word
  · rw [usage_eq_definition_iff.2 hlabel]
    exact iff_of_false (by decide) fun h => h.2 hlabel
  · unfold usage
    rw [if_neg hlabel, and_iff_left hlabel]
    split
    · rename_i r hfirst
      obtain ⟨htarget, -⟩ := List.find?_eq_some_iff_append.1 hfirst
      refine iff_of_true ?_ ⟨r, List.mem_of_find?_eq_some hfirst, beq_iff_eq.1 htarget⟩
      cases r.transfer <;> simp [Transfer.usage]
    · rename_i hnone
      refine iff_of_false (by decide) fun ⟨r, hr, htarget⟩ => ?_
      exact List.find?_eq_none.1 hnone r hr (beq_iff_eq.2 htarget)

theorem mentions_iff_of_known {text : Text}
    (h : label? text = some word ∨ ∃ r ∈ references text, r.target = word) :
    mentions word text = true ↔ ¬ Hides word text := by
  apply mentions_iff_not_hides
  rcases h with hlabel | ⟨r, hr, rfl⟩
  · exact whole_of_label hlabel
  · exact whole_of_reference hr

/-! ## The report and the index -/

theorem covers_ofFiles {index : Index} {found : List Mention}
    (hpaths : ∀ path ∈ paths, Path.holdsNull path = false)
    (hindex : (Index.ofFiles tree paths).2 = .ok index)
    (hfound : (report tree word paths).2 = .ok found) :
    Covers index (HiddenAt tree word) word found where
  definition m hm := by
    obtain ⟨text, hline, -, -, husage⟩ := (mem_report hpaths hfound).1 hm
    rw [husage, usage_eq_definition_iff, declares_ofFiles hindex]
    constructor
    · exact fun hlabel => ⟨text, hline, hlabel⟩
    · rintro ⟨other, hother, hlabel⟩
      rwa [hline.unique hother]
  transfer m hm := by
    obtain ⟨text, hline, -, -, husage⟩ := (mem_report hpaths hfound).1 hm
    rw [husage, usage_transfers_iff, names_ofFiles hindex, declares_ofFiles hindex]
    constructor
    · rintro ⟨hreference, hlabel⟩
      refine ⟨⟨text, hline, hreference⟩, fun ⟨other, hother, hdeclared⟩ => hlabel ?_⟩
      rwa [hline.unique hother]
    · rintro ⟨⟨other, hother, hreference⟩, hlabel⟩
      obtain rfl := hline.unique hother
      exact ⟨hreference, fun hdeclared => hlabel ⟨text, hline, hdeclared⟩⟩
  reported file line hknown := by
    rw [declares_ofFiles hindex, names_ofFiles hindex, ← exists_or] at hknown
    obtain ⟨text, hknown⟩ := hknown
    rw [← and_or_left] at hknown
    obtain ⟨hline, hknown⟩ := hknown
    have hhidden : HiddenAt tree word file line ↔ Hides word text := by
      constructor
      · rintro ⟨lines, other, hread, hother, hhides⟩
        rwa [hline.unique ⟨hline.1, lines, hread, hother⟩]
      · obtain ⟨-, lines, hread, htext⟩ := hline
        exact fun hhides => ⟨lines, text, hread, htext, hhides⟩
    rw [hhidden, ← mentions_iff_of_known hknown]
    constructor
    · rintro ⟨m, hm, rfl, rfl⟩
      obtain ⟨other, hother, hmentions, -, -⟩ := (mem_report hpaths hfound).1 hm
      rwa [hline.unique hother]
    · intro hmentions
      exact ⟨⟨file, line, Text.trim text, usage text word⟩,
        (mem_report hpaths hfound).2 ⟨text, hline, hmentions, rfl, rfl⟩, rfl, rfl⟩

/-- A report agrees with the index of the same files, but for the lines that a literal hides. Both
are made unless one of the texts is no path, and then neither is. -/
theorem covers_of_report (tree : FileTree) (paths : List Text) (word : Text) :
    ((∀ path ∈ paths, Path.holdsNull path = false) →
      ∃ index found, (Index.ofFiles tree paths).2 = .ok index
        ∧ (report tree word paths).2 = .ok found
        ∧ Covers index (HiddenAt tree word) word found)
      ∧ ((∃ path ∈ paths, Path.holdsNull path = true) →
        (Index.ofFiles tree paths).2 = .error {} ∧ (report tree word paths).2 = .error {}) := by
  refine ⟨fun hpaths => ?_, fun hnull =>
    ⟨Index.ofFiles_eq_error hnull, report_eq_error tree word hnull⟩⟩
  obtain ⟨index, hindex⟩ := Index.exists_ofFiles_iff.2 hpaths
  have hfound := report_eq_flatMap tree word paths hpaths
  exact ⟨index, _, hindex, hfound, covers_ofFiles hpaths hindex hfound⟩

/-- A script that declares a word, jumps to it, and does so once more behind a literal that hides
it. -/
def hidingScript : FileTree :=
  ⟨[], .ofList [(["a"], .file (Utf8.encode "w:\nJump @w\n_MSG('a//b') Jump @w"))]⟩

theorem covers_of_report_hiding :
    (∀ path ∈ ["a".toList, ['b']], Path.holdsNull path = false)
      ∧ ∃ index found, (Index.ofFiles hidingScript ["a".toList, ['b']]).2 = .ok index
        ∧ (report hidingScript "w" ["a".toList, ['b']]).2 = .ok found
        ∧ found.map (fun m => (m.line, m.usage)) = [(0, .definition), (1, .jump)]
        ∧ Covers index (HiddenAt hidingScript "w") "w" found := by
  have hpaths : ∀ path ∈ ["a".toList, ['b']], Path.holdsNull path = false := by decide
  obtain ⟨index, found, hindex, hfound, hcovers⟩ :=
    (covers_of_report hidingScript ["a".toList, ['b']] "w").1 hpaths
  have hlines : (report hidingScript "w" ["a".toList, ['b']]).2.toOption.map
      (fun found => found.map fun m => (m.line, m.usage))
        = some [(0, .definition), (1, .jump)] := by
    decide +kernel
  rw [hfound] at hlines
  exact ⟨hpaths, index, found, hindex, hfound, Option.some.inj hlines, hcovers⟩

def literalTree : FileTree :=
  ⟨[], .ofList [(["a"], .file (Utf8.encode "_MSG('a//b') Jump @w"))]⟩

/-- Not every line that an index knows is reported. -/
theorem not_covers_of_literal :
    ¬ ∀ (tree : FileTree) (paths : List Text) (word : Text), word ≠ [] →
      word.all Text.isWord = true → ∀ index found, (Index.ofFiles tree paths).2 = .ok index →
        (report tree word paths).2 = .ok found →
          Covers index (fun _ _ => False) word found := by
  intro h
  have hempty : (report literalTree "w" ["a".toList]).2 = .ok [] := by decide +kernel
  have hnamed : (Index.ofFiles literalTree ["a".toList]).2.toOption.any
      (fun index => decide (⟨"a", 0, "w"⟩ ∈ index.callersOf "w")) = true := by decide +kernel
  rcases hindex : (Index.ofFiles literalTree ["a".toList]).2 with e | index <;>
    rw [hindex] at hnamed
  · cases hnamed
  have hcovers := h literalTree ["a".toList] "w" (by decide) (by decide) index [] hindex hempty
  have hnames : index.Names "w" "a" 0 := by
    unfold Index.Names
    exact of_decide_eq_true hnamed
  obtain ⟨m, hm, -⟩ := (hcovers.reported "a" 0 (.inr hnames)).2 not_false
  cases hm

end Dialogue.Script
