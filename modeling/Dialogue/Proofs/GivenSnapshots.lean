import Dialogue.Proofs.Blanks
import Dialogue.Proofs.FileOrder
import Dialogue.Proofs.Lines
import Dialogue.Proofs.SearchFaults
import Dialogue.Proofs.Utf8
import Dialogue.Proofs.WholeWords
import Dialogue.Workspace.Basic

/-!
# A workspace on given data sets

A workspace takes a data set of size 0 for one that was not given. The size of an index is the
number of its declarations and that of a store the number of its message files, so call sites,
speaker names and name tables can be lost. A search asks an index for the call sites of labels that
lines declare and for nothing else (`Search.run_congr`); a file that declares one shows whether they
are there (`trace_declaring`). So a workspace answers as what it was given exactly if no call site
and no name was dropped (`answers_of_ofSnapshot`).
-/

namespace Dialogue

namespace Script

open Text

theorem takeWord?_append {name rest : Text} (h : IsLabel name)
    (hrest : rest.head?.any isWord = false) : takeWord? (name ++ rest) = some (name, rest) := by
  have htake : rest.takeWhile isWord = [] := by
    cases rest with
    | nil => rfl
    | cons c rest => simpa using hrest
  have hdrop : rest.dropWhile isWord = rest := by
    cases rest with
    | nil => rfl
    | cons c rest => simpa using hrest
  have hempty : name.isEmpty = false := by simpa using h.1
  simp only [takeWord?, List.takeWhile_append_of_pos h.2, List.dropWhile_append_of_pos h.2, htake,
    hdrop, List.append_nil, hempty, Bool.false_eq_true, if_false]

/-- The line that declares a label and does nothing else. -/
def declaration (name : Text) : Text := name ++ [':']

section Declaration

variable {name : Text}

theorem mem_declaration (h : IsLabel name) {c : Char} (hc : c ∈ declaration name) :
    isWord c = true ∨ c = ':' := by
  rcases List.mem_append.1 hc with hc | hc
  · exact .inl (h.2 c hc)
  · exact .inr (List.mem_singleton.1 hc)

theorem not_mem_declaration (h : IsLabel name) {c : Char} (hword : isWord c = false)
    (hcolon : c ≠ ':') : c ∉ declaration name := by
  intro hc
  rcases mem_declaration h hc with hc | hc
  · rw [hword] at hc
    cases hc
  · exact hcolon hc

theorem not_blank_declaration (h : IsLabel name) : ∀ c ∈ declaration name, isBlank c = false := by
  intro c hc
  rcases mem_declaration h hc with hc | rfl
  · by_contra hblank
    rw [isWord_of_isBlank (by simpa using hblank)] at hc
    cases hc
  · decide

theorem code_declaration (h : IsLabel name) : code (declaration name) = declaration name := by
  refine code_of_not_infix fun hmarker => ?_
  have hslash : '/' ∈ declaration name := hmarker.subset (by decide)
  exact not_mem_declaration h (by decide) (by decide) hslash

theorem labelBeforeColon?_declaration (h : IsLabel name) :
    labelBeforeColon? (declaration name) = some name := by
  have hcolon : ([':'] : Text).head?.any isWord = false := by decide
  rw [labelBeforeColon?, trimStart_of_forall (not_blank_declaration h), declaration,
    takeWord?_append h hcolon]
  rfl

/-- Behind the word that marks a declaration a blank would have to follow. -/
theorem labelAfterMarker?_declaration (h : IsLabel name) :
    labelAfterMarker? (declaration name) = none := by
  have hplain := not_blank_declaration h
  rw [labelAfterMarker?, trimStart_of_forall hplain]
  rcases hafter : after? "Label" (declaration name) with _ | rest
  · rfl
  · have hblank : rest.head?.any isBlank = false := by
      cases rest with
      | nil => rfl
      | cons c rest =>
        refine hplain c ?_
        rw [after?_eq_some_iff.1 hafter]
        simp
    simp [hblank]

theorem label?_declaration (h : IsLabel name) : label? (declaration name) = some name := by
  rw [label?, code_declaration h, labelAfterMarker?_declaration h,
    labelBeforeColon?_declaration h]
  rfl

theorem openingsFrom_of_not_mem : ∀ {text : Text} (offset : Nat) (inside : Bool)
    (pending : Pending), '(' ∉ text → openingsFrom offset inside pending text = []
  | [], _, _, _, _ => rfl
  | c :: rest, offset, inside, pending, h => by
    rw [List.mem_cons, not_or] at h
    have hc : ∀ name blank, c = '(' → pending = some (name, blank) → False :=
      fun _ _ hc => absurd hc.symm h.1
    rw [openingsFrom, openingsFrom_of_not_mem _ _ _ h.2]
    exact hc

theorem invocations_declaration (h : IsLabel name) : invocations (declaration name) = [] := by
  have hopenings : openings (declaration name) = [] :=
    openingsFrom_of_not_mem 0 false none (not_mem_declaration h (by decide) (by decide))
  simp [invocations, calls, hopenings]

end Declaration

end Script

namespace Trace

open Script (IsLabel declaration)

variable {query other : Query} {content : Files}

/-- A scan that ends at a label ends at one that a line declares. -/
theorem Query.isLabel_of_scan {above : List (Text × Nat)} {name : Text}
    (h : query.scan above = .ok (.label name)) : IsLabel name := by
  obtain ⟨_, _, -, -, text, _, _, -, -, hlabel⟩ := query.scan_split h
  exact Script.isLabel_of_label? hlabel

namespace Search

theorem cross_congr {label : Text}
    (h : query.index.callersOf label = other.index.callersOf label) (search : Search)
    (path : List Text) : search.cross query path label = search.cross other path label := by
  simp only [cross, Query.framesOf, h]

theorem visit_congr (hscan : ∀ above, query.scan above = other.scan above)
    (hcallers : ∀ label, IsLabel label → query.index.callersOf label = other.index.callersOf label)
    (search : Search) (frame : Frame) (lines : List Text) :
    search.visit query frame lines = search.visit other frame lines := by
  rw [visit, visit, ← hscan]
  rcases h : query.scan (linesAbove lines frame.line) with e | _ | label | _
  · rfl
  · rfl
  · simp only [cross_congr (hcallers label (Query.isLabel_of_scan h))]
  · rfl

/-- Two searches that stop alike and find the same call sites of every label run alike. -/
theorem run_congr (hscan : ∀ above, query.scan above = other.scan above)
    (hcallers : ∀ label, IsLabel label →
      query.index.callersOf label = other.index.callersOf label) :
    ∀ (budget : Nat) (search : Search),
      search.run query content budget = search.run other content budget
  | 0, _ => rfl
  | budget + 1, search => by
    have ih := run_congr hscan hcallers budget
    rcases hq : search.queue with _ | ⟨frame, rest⟩
    · simp only [run, hq]
    rcases hc : content frame.file with e | _ | lines
    · simp only [run, hq, hc]
    · simp only [run, hq, hc, ih]
    · simp only [run, hq, hc, visit_congr hscan hcallers, ih]

theorem steps_lt_of_run {search : Search} {budget : Nat} {result : Result}
    (hqueue : search.queue ≠ []) (h : search.run query content (budget + 1) = .ok result) :
    search.steps < result.steps := by
  rcases next_cases query content hqueue with ⟨found, hex⟩ | ⟨next, hnext⟩ | hstuck
  · rw [run_of_exhausts hex (Nat.le_add_left 1 budget)] at h
    obtain rfl := Except.ok.inj h
    rw [steps_of_exhausts hex]
    exact Nat.lt_succ_self _
  · rw [run_next hnext] at h
    obtain ⟨final, hsteps, hend⟩ := run_ends h
    have hstep := hnext.steps
    have hle := steps_le_of_steps hsteps
    cases hend with
    | stopped => simp only [stop, finish]; omega
    | found => simp only [finish, pop]; omega
  · obtain ⟨frame, e, hstuck⟩ := hstuck
    rw [run_of_stuckAt hstuck] at h
    cases h

end Search

theorem trace_congr {first second : Script.Index}
    (h : ∀ label, IsLabel label → first.callersOf label = second.callersOf label)
    (tree : FileTree) (schema : Schema) (limit : Int) (request : Request) :
    trace tree first schema limit request = trace tree second schema limit request := by
  rw [trace_eq, trace_eq]
  exact Search.run_congr (scan_ofRequest first second schema request) h _ _

/-! ## A file that declares a label -/

def declaringTree (name : Text) : FileTree := treeOf [("o", [declaration name])]

def declaringRequest : Request := ⟨"o", 1, 0, 1⟩

variable {name : Text}

theorem contentOf_declaringTree (h : IsLabel name) :
    contentOf (declaringTree name) "o" = .ok (some [declaration name]) := by
  have hread : (declaringTree name).readBytes "o" = .ok (Utf8.encode (declaration name)) := rfl
  obtain ⟨c, tail, hline⟩ : ∃ c tail, declaration name = c :: tail :=
    List.exists_cons_of_ne_nil (by simp [declaration])
  have hmark : '\uFEFF' ∉ declaration name :=
    Script.not_mem_declaration h (by decide +kernel) (by decide)
  have honeLine := Text.oneLine_of_not_blank (Script.not_blank_declaration h)
  have htext : Encoding.read (Utf8.encode (declaration name)) = declaration name := by
    rw [Encoding.read_encode]
    rw [hline] at hmark ⊢
    rw [Encoding.dropMark]
    intro rest hrest
    exact hmark (hrest ▸ List.mem_cons_self)
  rw [contentOf, FileTree.readLines?_eq_some_iff, FileTree.readLines, FileTree.readText, hread,
    Except.map, htext]
  rw [hline] at honeLine ⊢
  rw [Except.map, Text.lines_of_oneLine honeLine]

theorem scan_declaration (h : IsLabel name) (query : Query) :
    query.scan (linesAbove [declaration name] 1) = .ok (.label name) := by
  have hwriter : writer? query.schema query.tag query.slot (declaration name) = .ok none := by
    rw [writer?, Script.code_declaration h, Script.invocations_declaration h]
    rfl
  show query.scan [(declaration name, 0)] = .ok (.label name)
  simp only [Query.scan, hwriter, Script.label?_declaration h]

/-- Below the line that declares a label a search takes a second place unless no call site of the
label is known. -/
theorem trace_declaring (h : IsLabel name) (index : Script.Index) (schema : Schema) :
    trace (declaringTree name) index schema defaultLimit declaringRequest
        = .ok ⟨.unresolved, 1, []⟩ ↔ index.callersOf name = [] := by
  let query := Query.ofRequest index schema declaringRequest
  let next := ((Search.start declaringRequest).pop []).cross query [] name
  have hstep : Search.Next query (contentOf (declaringTree name)) (.start declaringRequest) next :=
    @Search.Next.cross _ _ _ ⟨"o", 1, []⟩ [] _ _ rfl (contentOf_declaringTree h)
      (scan_declaration h query)
  have hrun : trace (declaringTree name) index schema defaultLimit declaringRequest
      = next.run query (contentOf (declaringTree name)) 49 :=
    (trace_eq ..).trans (Search.run_next hstep 49)
  have hqueue : next.queue = [] ↔ index.callersOf name = [] := List.map_eq_nil_iff
  rw [hrun, ← hqueue]
  -- the label's line was the first step, so a search that ends at one step queued nothing
  constructor
  · intro hresult
    by_contra hne
    exact absurd (Search.steps_lt_of_run hne hresult) (Nat.lt_irrefl 1)
  · intro hempty
    have hunreadable : next.unreadable = [] := rfl
    have hsort : Text.sort [] = [] := List.mergeSort_nil
    rw [Search.run_of_exhausts (.empty hempty) (Nat.zero_le 49), Search.finish, hunreadable, hsort]
    rfl

end Trace

namespace Workspace

open Script (IsLabel)

/-- The workspace answers every question as the data sets that it was given. -/
structure AnswersAs (workspace : Workspace) (given : Snapshot) : Prop where
  messages : ∀ file label,
    workspace.snapshot.messages.message? file label = given.messages.message? file label
  speakers : ∀ label,
    workspace.snapshot.messages.speaker? label = given.messages.speaker? label
  names : ∀ category key,
    workspace.snapshot.messages.name? category key = given.messages.name? category key
  traces : ∀ tree request, workspace.trace tree request
    = Trace.trace tree given.index given.schema Trace.defaultLimit request

theorem eq_empty_of_size {κ ν : Type} [BEq κ] {table : Table κ ν} (h : table.size = 0) :
    table = ∅ := by
  obtain ⟨entries⟩ := table
  obtain rfl := List.eq_nil_of_length_eq_zero h
  rfl

/-- A schema of size 0 has no commands at all, so one can stand for the other. -/
theorem schema_eq_empty_of_size {schema : Schema} (h : schema.size = 0) : schema = {} := by
  obtain ⟨hints, ⟨commands⟩⟩ := schema
  simp only [Schema.size, Nat.add_eq_zero_iff] at h
  obtain rfl := eq_empty_of_size h.1
  cases commands with
  | nil => rfl
  | cons first rest => exact absurd h.2 (Nat.succ_ne_zero _)

variable (settings : Option Settings.Project) (given : Snapshot)

theorem message?_ofSnapshot (file label : Text) :
    (ofSnapshot settings given).snapshot.messages.message? file label
      = given.messages.message? file label := by
  unfold ofSnapshot
  simp only []
  split_ifs with hsize
  · have hempty : given.messages.messages = ∅ := eq_empty_of_size hsize
    rw [Store.message?, Store.message?, Store.labels, Store.labels, hempty]
  · rfl

theorem store_ofSnapshot : (ofSnapshot settings given).snapshot.messages
    = if given.messages.size = 0 then {} else given.messages := rfl

/-- A question about the store to which an empty store has no answer is answered alike unless the
store was dropped with an answer in it. -/
theorem answers_iff_not_dropped {α β : Type} (answer : Store → α → Option β)
    (hempty : ∀ a, answer {} a = none) :
    (∀ a, answer (ofSnapshot settings given).snapshot.messages a = answer given.messages a)
      ↔ given.messages.size ≠ 0 ∨ ∀ a, answer given.messages a = none := by
  rw [store_ofSnapshot]
  split_ifs with hsize
  · simp only [hempty, hsize, ne_eq, not_true_eq_false, false_or, eq_comm]
  · simp [hsize]

theorem trace_ofSnapshot (tree : FileTree) (request : Trace.Request) :
    (ofSnapshot settings given).trace tree request
      = Trace.trace tree (if given.index.size = 0 then {} else given.index) given.schema
        Trace.defaultLimit request := by
  have hschema : (ofSnapshot settings given).snapshot.schema = given.schema := by
    unfold ofSnapshot
    simp only []
    split_ifs with hsize
    · exact (schema_eq_empty_of_size hsize).symm
    · rfl
  rw [Workspace.trace, hschema]
  rfl

theorem traces_iff_not_dropped :
    (∀ tree request, (ofSnapshot settings given).trace tree request
        = Trace.trace tree given.index given.schema Trace.defaultLimit request)
      ↔ given.index.size ≠ 0 ∨ ∀ label, IsLabel label → given.index.callersOf label = [] := by
  simp only [trace_ofSnapshot]
  split_ifs with hsize
  · rw [or_iff_right (not_not_intro hsize)]
    constructor
    · intro htraces label hlabel
      -- asked for the file that declares it, the two differ as soon as a call site is known
      have hnone := (Trace.trace_declaring hlabel {} given.schema).2 rfl
      rw [htraces] at hnone
      exact (Trace.trace_declaring hlabel given.index given.schema).1 hnone
    · intro hcallers tree request
      have hsame : ∀ label, IsLabel label →
          Script.Index.callersOf {} label = given.index.callersOf label :=
        fun label hlabel => (hcallers label hlabel).symm
      exact Trace.trace_congr hsame tree given.schema Trace.defaultLimit request
  · simp [hsize]

/-- A workspace on given data sets answers every question about a message as they do, and those
about speakers, names and traces unless the store or the index is of size 0 and holds the answer. -/
theorem answers_of_ofSnapshot :
    (∀ file label, (ofSnapshot settings given).snapshot.messages.message? file label
        = given.messages.message? file label)
      ∧ ((∀ label, (ofSnapshot settings given).snapshot.messages.speaker? label
          = given.messages.speaker? label)
        ↔ given.messages.size ≠ 0 ∨ ∀ label, given.messages.speaker? label = none)
      ∧ ((∀ category key, (ofSnapshot settings given).snapshot.messages.name? category key
          = given.messages.name? category key)
        ↔ given.messages.size ≠ 0 ∨ ∀ category key, given.messages.name? category key = none)
      ∧ ((∀ tree request, (ofSnapshot settings given).trace tree request
          = Trace.trace tree given.index given.schema Trace.defaultLimit request)
        ↔ given.index.size ≠ 0 ∨ ∀ label, IsLabel label → given.index.callersOf label = []) := by
  have hnames := answers_iff_not_dropped settings given
    (fun store (p : Text × Dump.NameKey) => store.name? p.1 p.2) fun _ => rfl
  simp only [Prod.forall] at hnames
  exact ⟨message?_ofSnapshot settings given,
    answers_iff_not_dropped settings given Store.speaker? fun _ => rfl, hnames,
    traces_iff_not_dropped settings given⟩

/-- An index of a script that jumps to a label and declares none. -/
def callingSnapshot : Snapshot where
  index := Trace.indexOf [("a", ["SET(0)".toList, "Jump @T".toList])]
  schema := Trace.setSchema

theorem not_answersAs_of_calling :
    ¬ ∀ settings given, AnswersAs (ofSnapshot settings given) given := by
  intro hclaim
  let tree := Trace.treeOf [("a", ["SET(0)".toList, "Jump @T".toList]), ("t", ["T:".toList])]
  have hsame := (hclaim none callingSnapshot).traces tree ⟨"t", 1, 0, 1⟩
  have hdropped : (ofSnapshot none callingSnapshot).trace tree ⟨"t", 1, 0, 1⟩
      = .ok ⟨.unresolved, 1, []⟩ := by decide +kernel
  have hgiven : Trace.trace tree callingSnapshot.index callingSnapshot.schema Trace.defaultLimit
      ⟨"t", 1, 0, 1⟩ = .ok ⟨.resolved ⟨"SET", "a", 0, ["T".toList]⟩, 2, []⟩ := by decide +kernel
  rw [hdropped, hgiven] at hsame
  cases hsame

end Workspace

end Dialogue
