import Dialogue.Proofs.Locating
import Dialogue.Proofs.Tables
import Dialogue.Script.Index

/-!
# What an index knows of its scripts

The lines of the scripts declare labels and name them, file by file and line by line (`declaredIn`,
`sitesIn`). An index that has taken them in knows of each name its last declaration, all
declarations if there are two or more, and every line that names it (`Records`). One more
declaration or call site keeps this (`Records.define`, `Records.addCaller`), and so do lines, files
and lists of paths; a script that cannot be read adds nothing. Only a text that is no path ends the
scan (`Index.exists_ofFiles_iff`).
-/

namespace Dialogue.Script

/-- Scripts with their lines, in the order in which they are indexed. -/
abbrev Corpus := List (Text × List Text)

/-- What is found on numbered lines, from the first one on. -/
def collectFrom {α : Type} (found : Nat → Text → List α) (line : Nat) (lines : List Text) :
    List α :=
  (lines.zipIdx line).flatMap fun numbered => found numbered.2 numbered.1

def declaredOn (file : Text) (line : Nat) (text : Text) : List Definition :=
  ((label? text).map fun name => ⟨name, file, line⟩).toList

/-- One call site for each reference of a line. -/
def sitesOn (file : Text) (line : Nat) (text : Text) : List CallSite :=
  (references text).map fun r => ⟨file, line, r.target⟩

/-- The declarations of the scripts in the order of their files and lines. -/
def declaredIn (corpus : Corpus) : List Definition :=
  corpus.flatMap fun script => collectFrom (declaredOn script.1) 0 script.2

/-- The lines that name labels in the order of files, lines and places on the line. -/
def sitesIn (corpus : Corpus) : List CallSite :=
  corpus.flatMap fun script => collectFrom (sitesOn script.1) 0 script.2

def declarationsOf (name : Text) (declarations : List Definition) : List Definition :=
  declarations.filter fun d => d.name = name

def sitesOf (target : Text) (sites : List CallSite) : List CallSite :=
  sites.filter fun site => site.target = target

/-- An index knows the declarations and call sites that it was given. -/
structure Records (index : Index) (declarations : List Definition) (sites : List CallSite) :
    Prop where
  definition : ∀ name, index.definition? name = (declarationsOf name declarations).getLast?
  names : index.definitions.keys = (declarations.map (·.name)).eraseDups
  duplicates : ∀ name, index.duplicates.get? name
    = if 2 ≤ (declarationsOf name declarations).length then some (declarationsOf name declarations)
      else none
  callers : ∀ target, index.callers.get? target
    = if sitesOf target sites = [] then none else some (sitesOf target sites)
  /-- No site is kept twice or under another label. -/
  kept : (index.callers.values.map List.length).sum = sites.length

/-- What is said of declarations after earlier ones: each one whose name was declared before is said
to redefine the last one of that name. -/
def warnings (earlier : List Definition) : List Definition → List Log.Entry
  | [] => []
  | d :: rest =>
    ((declarationsOf d.name earlier).getLast?.map fun previous => Index.redefined previous d).toList
      ++ warnings (earlier ++ [d]) rest

theorem mem_collectFrom {α : Type} {found : Nat → Text → List α} {lines : List Text} {x : α} :
    x ∈ collectFrom found 0 lines ↔ ∃ n text, lines[n]? = some text ∧ x ∈ found n text := by
  simp only [collectFrom, List.mem_flatMap, Prod.exists, List.mk_mem_zipIdx_iff_getElem?]
  exact exists_comm

theorem mem_declaredIn {d : Definition} {corpus : Corpus} :
    d ∈ declaredIn corpus ↔ ∃ script ∈ corpus, script.1 = d.file
      ∧ ∃ text, script.2[d.line]? = some text ∧ label? text = some d.name := by
  simp only [declaredIn, List.mem_flatMap, mem_collectFrom, declaredOn, Option.mem_toList,
    Option.map_eq_some_iff]
  refine exists_congr fun script => and_congr_right fun _ => ?_
  constructor
  · rintro ⟨n, text, htext, name, hname, rfl⟩
    exact ⟨rfl, text, htext, hname⟩
  · rintro ⟨hfile, text, htext, hname⟩
    exact ⟨d.line, text, htext, d.name, hname, by rw [hfile]⟩

theorem mem_sitesIn {site : CallSite} {corpus : Corpus} :
    site ∈ sitesIn corpus ↔ ∃ script ∈ corpus, script.1 = site.file
      ∧ ∃ text, script.2[site.line]? = some text
        ∧ ∃ r ∈ references text, r.target = site.target := by
  simp only [sitesIn, List.mem_flatMap, mem_collectFrom, sitesOn, List.mem_map]
  refine exists_congr fun script => and_congr_right fun _ => ?_
  constructor
  · rintro ⟨n, text, htext, r, hr, rfl⟩
    exact ⟨rfl, text, htext, r, hr, rfl⟩
  · rintro ⟨hfile, text, htext, r, hr, htarget⟩
    exact ⟨site.line, text, htext, r, hr, by rw [hfile, htarget]⟩

theorem sitesOf_append (target : Text) (first second : List CallSite) :
    sitesOf target (first ++ second) = sitesOf target first ++ sitesOf target second :=
  List.filter_append ..

theorem warnings_append : ∀ (earlier first second : List Definition),
    warnings earlier (first ++ second)
      = warnings earlier first ++ warnings (earlier ++ first) second
  | earlier, [], second => by simp [warnings]
  | earlier, d :: first, second => by
    have ih := warnings_append (earlier ++ [d]) first second
    rw [List.cons_append, warnings, warnings, ih, List.append_assoc, List.append_assoc,
      List.singleton_append]

theorem declarationsOf_eq_nil {name : Text} {declarations : List Definition} :
    declarationsOf name declarations = [] ↔ name ∉ declarations.map (·.name) := by
  simp [declarationsOf, List.filter_eq_nil_iff]

/-- A declaration either is the first one of its name or is warned of. -/
theorem length_warnings : ∀ earlier declarations : List Definition,
    (warnings earlier declarations).length
        + ((earlier ++ declarations).map (·.name)).eraseDups.length
      = declarations.length + (earlier.map (·.name)).eraseDups.length
  | earlier, [] => by simp [warnings]
  | earlier, d :: rest => by
    have ih := length_warnings (earlier ++ [d]) rest
    have hnames : ((earlier ++ [d]).map (·.name)).eraseDups
        = if d.name ∈ earlier.map (·.name) then (earlier.map (·.name)).eraseDups
          else (earlier.map (·.name)).eraseDups ++ [d.name] := by
      rw [List.map_append]
      exact Table.eraseDups_snoc _ _
    rw [List.append_assoc, List.singleton_append, hnames] at ih
    simp only [warnings, List.length_append, List.length_cons]
    by_cases hd : d.name ∈ earlier.map (·.name)
    · have hne : declarationsOf d.name earlier ≠ [] := fun hnil => declarationsOf_eq_nil.1 hnil hd
      rw [if_pos hd] at ih
      rw [List.getLast?_eq_getLast_of_ne_nil hne]
      simp only [Option.map_some, Option.toList_some, List.length_singleton]
      omega
    · rw [if_neg hd, List.length_append, List.length_singleton] at ih
      rw [declarationsOf_eq_nil.2 hd]
      simp only [List.getLast?_nil, Option.map_none, Option.toList_none, List.length_nil]
      omega

namespace Records

variable {index : Index} {declarations : List Definition} {sites : List CallSite}

theorem empty : Records {} [] [] where
  definition _ := rfl
  names := rfl
  duplicates _ := rfl
  callers _ := rfl
  kept := rfl

/-- The declarations of a name that was declared are those that were kept for it, or the last one if
there is just that one. -/
theorem earlier_eq (h : Records index declarations sites) {name : Text} {previous : Definition}
    (hp : (declarationsOf name declarations).getLast? = some previous) :
    (index.duplicates.get? name).getD [previous] = declarationsOf name declarations := by
  rw [h.duplicates]
  split_ifs with hlen
  · rfl
  · match hds : declarationsOf name declarations, hp, hlen with
    | [d], hp, _ => simpa using hp.symm
    | _ :: _ :: _, _, hlen => simp at hlen

theorem define (h : Records index declarations sites) (d : Definition) :
    Records (index.define d).1 (declarations ++ [d]) sites
      ∧ (index.define d).2 = warnings declarations [d] := by
  have hlast : index.definitions.get? d.name = (declarationsOf d.name declarations).getLast? :=
    h.definition d.name
  have hown : declarationsOf d.name (declarations ++ [d])
      = declarationsOf d.name declarations ++ [d] := by
    simp [declarationsOf]
  have hother : ∀ {name}, name ≠ d.name →
      declarationsOf name (declarations ++ [d]) = declarationsOf name declarations := by
    intro name hne
    simp [declarationsOf, Ne.symm hne]
  -- the last declaration and the names are the same whether the name is new or not
  have hdefinition : ∀ name, (index.definitions.insert d.name d).get? name
      = (declarationsOf name (declarations ++ [d])).getLast? := by
    intro name
    rw [Table.get?_insert]
    split_ifs with hname
    · rw [hname, hown, List.getLast?_concat]
    · rw [hother hname]
      exact h.definition name
  have hnames : (index.definitions.insert d.name d).keys
      = ((declarations ++ [d]).map (·.name)).eraseDups := by
    rw [Table.keys_insert, h.names, List.map_append]
    simp only [List.mem_eraseDups]
    exact (Table.eraseDups_snoc _ _).symm
  unfold Index.define
  rw [hlast, warnings, warnings, List.append_nil]
  rcases hds : (declarationsOf d.name declarations).getLast? with _ | previous
  · rw [List.getLast?_eq_none_iff] at hds
    refine ⟨⟨hdefinition, hnames, fun name => ?_, h.callers, h.kept⟩, rfl⟩
    change index.duplicates.get? name = _
    by_cases hname : name = d.name
    · rw [h.duplicates, hname, hown, hds]
      rfl
    · rw [h.duplicates, hother hname]
  · refine ⟨⟨hdefinition, hnames, fun name => ?_, h.callers, h.kept⟩, rfl⟩
    change (index.duplicates.insert d.name
      ((index.duplicates.get? d.name).getD [previous] ++ [d])).get? name = _
    rw [Table.get?_insert, h.earlier_eq hds]
    by_cases hname : name = d.name
    · have hpos := List.length_pos_iff.2 (List.ne_nil_of_mem (List.mem_of_getLast? hds))
      rw [if_pos hname, hname, hown, if_pos (by simp; omega)]
    · rw [if_neg hname, h.duplicates, hother hname]

theorem addCaller (h : Records index declarations sites) (site : CallSite) :
    Records (index.addCaller site) declarations (sites ++ [site]) where
  definition := h.definition
  names := h.names
  duplicates := h.duplicates
  callers target := by
    have hsite := h.callers site.target
    have hget := Table.get?_push index.callers site.target target site
    change (index.callers.push site.target site).get? target = _
    rw [hget, sitesOf_append]
    by_cases ht : target = site.target
    · subst ht
      have hown : sitesOf site.target [site] = [site] := by simp [sitesOf]
      rw [if_pos rfl, hsite, hown]
      by_cases hnil : sitesOf site.target sites = [] <;> simp [hnil]
    · have hother : sitesOf target [site] = [] := by simp [sitesOf, Ne.symm ht]
      rw [if_neg ht, h.callers, hother, List.append_nil]
  kept := by
    rw [List.length_append, List.length_singleton, ← h.kept]
    exact Table.length_values_push index.callers site.target site

/-- The references of a line, one after the other. -/
theorem addCallers (file : Text) (line : Nat) : ∀ {index : Index} {sites : List CallSite}
    (refs : List Reference), Records index declarations sites →
      Records (refs.foldl (fun index r => index.addCaller ⟨file, line, r.target⟩) index)
        declarations
        (sites ++ refs.map fun r => ⟨file, line, r.target⟩)
  | _, sites, [], h => by simpa using h
  | _, sites, r :: refs, h => by
    have hrest := addCallers file line refs (h.addCaller ⟨file, line, r.target⟩)
    rw [List.append_assoc, List.singleton_append] at hrest
    exact hrest

theorem addLine (h : Records index declarations sites) (file : Text) (line : Nat) (text : Text) :
    Records (index.addLine file line text).1 (declarations ++ declaredOn file line text)
        (sites ++ sitesOn file line text)
      ∧ (index.addLine file line text).2 = warnings declarations (declaredOn file line text) := by
  unfold Index.addLine declaredOn
  rcases label? text with _ | name
  · rw [Option.map_none, Option.toList_none, List.append_nil]
    exact ⟨h.addCallers file line (references text), rfl⟩
  · obtain ⟨hdefine, hlog⟩ := h.define ⟨name, file, line⟩
    exact ⟨hdefine.addCallers file line (references text), hlog⟩

theorem addLinesFrom (file : Text) : ∀ {index : Index} {declarations : List Definition}
    {sites : List CallSite}, Records index declarations sites → ∀ (line : Nat) (lines : List Text),
      Records (index.addLinesFrom file line lines).1
          (declarations ++ collectFrom (declaredOn file) line lines)
          (sites ++ collectFrom (sitesOn file) line lines)
        ∧ (index.addLinesFrom file line lines).2
          = warnings declarations (collectFrom (declaredOn file) line lines)
  | _, _, _, h, line, [] => by simpa [collectFrom, warnings, Index.addLinesFrom] using h
  | index, declarations, sites, h, line, text :: rest => by
    obtain ⟨hline, hlog⟩ := h.addLine file line text
    obtain ⟨hrest, hmore⟩ := addLinesFrom file hline (line + 1) rest
    rw [List.append_assoc, List.append_assoc] at hrest
    refine ⟨hrest, ?_⟩
    change (index.addLine file line text).2
        ++ ((index.addLine file line text).1.addLinesFrom file (line + 1) rest).2
      = warnings declarations
        (declaredOn file line text ++ collectFrom (declaredOn file) (line + 1) rest)
    rw [warnings_append, hlog, hmore]

/-- One more script. -/
theorem addLines (h : Records index declarations sites) (file : Text) (lines : List Text) :
    Records (index.addLines file lines).1 (declarations ++ declaredIn [(file, lines)])
        (sites ++ sitesIn [(file, lines)])
      ∧ (index.addLines file lines).2 = warnings declarations (declaredIn [(file, lines)]) := by
  have hnext : Records { index with files := index.files ++ [file] } declarations sites :=
    ⟨h.definition, h.names, h.duplicates, h.callers, h.kept⟩
  simpa [declaredIn, sitesIn, Index.addLines] using hnext.addLinesFrom file 0 lines

end Records

namespace Index

/-- The index with more scripts. -/
def addCorpus (index : Index) : Corpus → Index × List Log.Entry
  | [] => (index, [])
  | script :: rest =>
    let (index, log) := index.addLines script.1 script.2
    let (index, more) := addCorpus index rest
    (index, log ++ more)

theorem define_kept (index : Index) (definition : Definition) :
    (index.define definition).1.files = index.files
      ∧ (index.define definition).1.failed = index.failed := by
  unfold define
  split <;> exact ⟨rfl, rfl⟩

theorem addLine_kept (index : Index) (file : Text) (line : Nat) (text : Text) :
    (index.addLine file line text).1.files = index.files
      ∧ (index.addLine file line text).1.failed = index.failed := by
  have hcallers : ∀ (refs : List Reference) (index : Index),
      (refs.foldl (fun index r => index.addCaller ⟨file, line, r.target⟩) index).files = index.files
        ∧ (refs.foldl (fun index r => index.addCaller ⟨file, line, r.target⟩) index).failed
          = index.failed := by
    intro refs
    induction refs with
    | nil => exact fun _ => ⟨rfl, rfl⟩
    | cons r refs ih => exact fun index => ih (index.addCaller ⟨file, line, r.target⟩)
  unfold addLine
  rcases label? text with _ | name
  · exact hcallers (references text) index
  · have hdefine := define_kept index ⟨name, file, line⟩
    have hrest := hcallers (references text) (index.define ⟨name, file, line⟩).1
    exact ⟨hrest.1.trans hdefine.1, hrest.2.trans hdefine.2⟩

theorem addLinesFrom_kept (file : Text) : ∀ (index : Index) (line : Nat) (lines : List Text),
    (index.addLinesFrom file line lines).1.files = index.files
      ∧ (index.addLinesFrom file line lines).1.failed = index.failed
  | index, line, [] => ⟨rfl, rfl⟩
  | index, line, text :: rest => by
    have hline := addLine_kept index file line text
    have hrest := addLinesFrom_kept file (index.addLine file line text).1 (line + 1) rest
    exact ⟨hrest.1.trans hline.1, hrest.2.trans hline.2⟩

/-- Whether a script can be read. -/
def isReadable (tree : FileTree) (path : Text) : Bool := (tree.readLines path).isOk

section Files

variable {tree : FileTree} {index next : Index} {path : Text} {paths : List Text}
  {log : List Log.Entry}

theorem addFile_cases (h : addFile tree index path = .ok (next, log)) :
    (∃ lines, tree.readLines path = .ok lines ∧ (next, log) = index.addLines path lines)
      ∨ ∃ cause, tree.readLines path = .error (.refused cause)
        ∧ next = { index with failed := index.failed ++ [path] }
        ∧ log = [⟨.warning, "Skipping script: " ++ path ++ ": unreadable"⟩] := by
  unfold addFile FileTree.readLines? at h
  rcases hread : tree.readLines path with (cause | e) | lines <;> simp only [hread] at h
  · cases h
    exact .inr ⟨cause, rfl, rfl, rfl⟩
  · cases h
  · exact .inl ⟨lines, rfl, (Except.ok.inj h).symm⟩

theorem exists_addFile_iff :
    (∃ done, addFile tree index path = .ok done) ↔ Path.holdsNull path = false := by
  rw [← tree.exists_readLines?_iff, addFile]
  rcases tree.readLines? path with e | _ | lines <;> simp

/-- A scan that does not end early goes on from each of its files. -/
theorem addFiles_cons (h : (addFiles tree index (path :: paths)).2 = .ok next) :
    ∃ middle log, addFile tree index path = .ok (middle, log)
      ∧ (addFiles tree middle paths).2 = .ok next
      ∧ (addFiles tree index (path :: paths)).1 = log ++ (addFiles tree middle paths).1 := by
  rcases hfile : addFile tree index path with e | ⟨middle, log⟩ <;>
    simp only [addFiles, hfile] at h ⊢
  · cases h
  · exact ⟨middle, log, rfl, h, rfl⟩

theorem exists_addFiles_iff : ∀ {paths : List Text} {index : Index},
    (∃ next, (addFiles tree index paths).2 = .ok next)
      ↔ ∀ path ∈ paths, Path.holdsNull path = false
  | [], index => by simp [addFiles]
  | path :: paths, index => by
    have hpath := @exists_addFile_iff tree index path
    rw [List.forall_mem_cons, ← hpath]
    rcases hfile : addFile tree index path with e | ⟨middle, log⟩
    · simp [addFiles, hfile]
    · simp [addFiles, hfile, exists_addFiles_iff]

theorem addFile_kept (h : addFile tree index path = .ok (next, log)) :
    next.files = index.files ++ [path].filter (isReadable tree)
      ∧ next.failed = index.failed ++ [path].filter fun path => !isReadable tree path := by
  rcases addFile_cases h with ⟨lines, hread, hnext⟩ | ⟨cause, hread, rfl, -⟩
  · obtain rfl : next = (index.addLines path lines).1 := congrArg Prod.fst hnext
    have hkept := addLinesFrom_kept path { index with files := index.files ++ [path] } 0 lines
    simp only [addLines, hkept]
    simp [isReadable, hread, Except.isOk, Except.toBool]
  · simp [isReadable, hread, Except.isOk, Except.toBool]

/-- Of all scripts the ones that can be read are indexed, and the others are passed over. -/
theorem addFiles_kept : ∀ {paths : List Text} {index : Index},
    (addFiles tree index paths).2 = .ok next →
      next.files = index.files ++ paths.filter (isReadable tree)
        ∧ next.failed = index.failed ++ paths.filter fun path => !isReadable tree path
  | [], index, h => by
    obtain rfl := Except.ok.inj h
    simp
  | path :: paths, index, h => by
    obtain ⟨middle, log, hfile, hrest, -⟩ := addFiles_cons h
    obtain ⟨hfiles, hfailed⟩ := addFiles_kept hrest
    rw [hfiles, hfailed, (addFile_kept hfile).1, (addFile_kept hfile).2, List.append_assoc,
      List.append_assoc, ← List.filter_append, ← List.filter_append]
    exact ⟨rfl, rfl⟩

theorem ofFiles_eq_ok_iff :
    (ofFiles tree paths).2 = .ok index ↔ (addFiles tree {} paths).2 = .ok index := by
  unfold ofFiles
  rcases addFiles tree {} paths with ⟨log, e | found⟩ <;> rfl

/-- Scripts are indexed unless one of the texts is no path. -/
theorem exists_ofFiles_iff : (∃ index, (ofFiles tree paths).2 = .ok index)
    ↔ ∀ path ∈ paths, Path.holdsNull path = false := by
  simp only [ofFiles_eq_ok_iff, exists_addFiles_iff]

theorem ofFiles_eq_error (h : ∃ path ∈ paths, Path.holdsNull path = true) :
    (ofFiles tree paths).2 = .error {} := by
  obtain ⟨path, hmem, hnull⟩ := h
  rcases hindex : (ofFiles tree paths).2 with e | index
  · rfl
  · rw [exists_ofFiles_iff.1 ⟨index, hindex⟩ path hmem] at hnull
    cases hnull

end Files

theorem files_addCorpus : ∀ (index : Index) (corpus : Corpus),
    (index.addCorpus corpus).1.files = index.files ++ corpus.map (·.1)
  | index, [] => by simp [addCorpus]
  | index, script :: corpus => by
    have hscript : (index.addLines script.1 script.2).1.files = index.files ++ [script.1] :=
      (addLinesFrom_kept script.1 { index with files := index.files ++ [script.1] } 0 script.2).1
    have hrest := files_addCorpus (index.addLines script.1 script.2).1 corpus
    rw [hscript, List.append_assoc, List.singleton_append] at hrest
    exact hrest

end Index

/-- The scripts at some paths that can be read. -/
def readable (tree : FileTree) (paths : List Text) : Corpus :=
  paths.filterMap fun path => (tree.readLines path).toOption.map fun lines => (path, lines)

theorem readable_of_error {tree : FileTree} {path : Text} {fault : FileTree.Fault}
    (h : tree.readLines path = .error fault) (paths : List Text) :
    readable tree (path :: paths) = readable tree paths := by
  simp [readable, h, Except.toOption]

theorem readable_of_ok {tree : FileTree} {path : Text} {lines : List Text}
    (h : tree.readLines path = .ok lines) (paths : List Text) :
    readable tree (path :: paths) = (path, lines) :: readable tree paths := by
  simp [readable, h, Except.toOption]

/-- What is said while the scripts at some paths are indexed after some declarations: the warnings
of each script that can be read, and one line for each that cannot. -/
def remarks (tree : FileTree) (earlier : List Definition) : List Text → List Log.Entry
  | [] => []
  | path :: rest =>
    match tree.readLines path with
    | .ok lines =>
      warnings earlier (declaredIn [(path, lines)])
        ++ remarks tree (earlier ++ declaredIn [(path, lines)]) rest
    | .error _ =>
      ⟨.warning, "Skipping script: " ++ path ++ ": unreadable"⟩ :: remarks tree earlier rest

theorem declaredIn_cons (script : Text × List Text) (corpus : Corpus) :
    declaredIn (script :: corpus) = declaredIn [script] ++ declaredIn corpus := by
  simp [declaredIn]

theorem sitesIn_cons (script : Text × List Text) (corpus : Corpus) :
    sitesIn (script :: corpus) = sitesIn [script] ++ sitesIn corpus := by
  simp [sitesIn]

namespace Records

theorem addCorpus : ∀ {index : Index} {declarations : List Definition} {sites : List CallSite},
    Records index declarations sites → ∀ corpus : Corpus,
      Records (index.addCorpus corpus).1 (declarations ++ declaredIn corpus)
          (sites ++ sitesIn corpus)
        ∧ (index.addCorpus corpus).2 = warnings declarations (declaredIn corpus)
  | _, _, _, h, [] => by simpa [declaredIn, sitesIn, warnings, Index.addCorpus] using h
  | index, declarations, sites, h, script :: corpus => by
    obtain ⟨hscript, hlog⟩ := h.addLines script.1 script.2
    obtain ⟨hrest, hmore⟩ := hscript.addCorpus corpus
    rw [declaredIn_cons, sitesIn_cons, ← List.append_assoc, ← List.append_assoc]
    refine ⟨hrest, ?_⟩
    change (index.addLines script.1 script.2).2
        ++ ((index.addLines script.1 script.2).1.addCorpus corpus).2
      = warnings declarations (declaredIn [script] ++ declaredIn corpus)
    rw [warnings_append, hlog, hmore]

theorem addFiles {tree : FileTree} {next : Index} : ∀ {paths : List Text} {index : Index}
    {declarations : List Definition} {sites : List CallSite}, Records index declarations sites →
      (Index.addFiles tree index paths).2 = .ok next →
        Records next (declarations ++ declaredIn (readable tree paths))
            (sites ++ sitesIn (readable tree paths))
          ∧ (Index.addFiles tree index paths).1 = remarks tree declarations paths
  | [], index, _, _, h, hadd => by
    obtain rfl := Except.ok.inj hadd
    simpa [readable, declaredIn, sitesIn, remarks, Index.addFiles] using h
  | path :: paths, index, declarations, sites, h, hadd => by
    obtain ⟨middle, log, hfile, hrest, hlog⟩ := Index.addFiles_cons hadd
    rw [hlog]
    rcases Index.addFile_cases hfile with ⟨lines, hread, hmiddle⟩ | ⟨cause, hread, rfl, rfl⟩
    · obtain ⟨hscript, hsaid⟩ := h.addLines path lines
      rw [← hmiddle] at hscript hsaid
      obtain ⟨hlast, hmore⟩ := hscript.addFiles hrest
      rw [readable_of_ok hread, declaredIn_cons, sitesIn_cons, ← List.append_assoc,
        ← List.append_assoc]
      simp only [remarks, hread]
      exact ⟨hlast, by rw [hmore, ← hsaid]⟩
    · have hnext : Records { index with failed := index.failed ++ [path] } declarations sites :=
        ⟨h.definition, h.names, h.duplicates, h.callers, h.kept⟩
      obtain ⟨hlast, hmore⟩ := hnext.addFiles hrest
      rw [readable_of_error hread]
      simp only [remarks, hread]
      exact ⟨hlast, congrArg (_ :: ·) hmore⟩

theorem contains_iff {index : Index} {declarations : List Definition} {sites : List CallSite}
    (h : Records index declarations sites) (name : Text) :
    index.contains name = true ↔ ∃ d ∈ declarations, d.name = name := by
  rw [Index.contains, Table.contains_iff_mem_keys, h.names, List.mem_eraseDups, List.mem_map]

theorem callersOf_eq {index : Index} {declarations : List Definition} {sites : List CallSite}
    (h : Records index declarations sites) (label : Text) :
    index.callersOf label = sitesOf label sites := by
  rw [Index.callersOf, h.callers]
  split_ifs with hnil
  · exact hnil.symm
  · rfl

end Records

theorem records_ofFiles {tree : FileTree} {paths : List Text} {index : Index}
    (h : (Index.ofFiles tree paths).2 = .ok index) :
    Records index (declaredIn (readable tree paths)) (sitesIn (readable tree paths)) :=
  (Records.empty.addFiles (Index.ofFiles_eq_ok_iff.1 h)).1

theorem mem_readable {tree : FileTree} {paths : List Text} {script : Text × List Text} :
    script ∈ readable tree paths
      ↔ script.1 ∈ paths ∧ tree.readLines script.1 = .ok script.2 := by
  obtain ⟨file, lines⟩ := script
  simp only [readable, List.mem_filterMap, Option.map_eq_some_iff, Prod.mk.injEq]
  constructor
  · rintro ⟨path, hpath, read, hread, rfl, rfl⟩
    rcases hlines : tree.readLines path with cause | other <;> rw [hlines] at hread
    · cases hread
    · cases hread
      exact ⟨hpath, rfl⟩
  · rintro ⟨hpath, hread⟩
    exact ⟨file, hpath, lines, by rw [hread]; rfl, rfl, rfl⟩

theorem files_readable (tree : FileTree) : ∀ paths : List Text,
    (readable tree paths).map (·.1) = paths.filter (Index.isReadable tree)
  | [] => rfl
  | path :: paths => by
    have ih := files_readable tree paths
    unfold readable Index.isReadable at ih ⊢
    rcases hread : tree.readLines path with cause | lines
    · simpa [hread, Except.toOption, Except.isOk, Except.toBool] using ih
    · simpa [hread, Except.toOption, Except.isOk, Except.toBool] using ih

/-- An index is what the lines of some scripts say, and nothing else. -/
structure Agrees (index : Index) (corpus : Corpus) : Prop extends
    Records index (declaredIn corpus) (sitesIn corpus) where
  files : index.files = corpus.map (·.1)
  present : ∀ name, index.contains name = true ↔ ∃ d ∈ declaredIn corpus, d.name = name

theorem agrees_addCorpus (corpus : Corpus) : Agrees (Index.addCorpus {} corpus).1 corpus
    ∧ (Index.addCorpus {} corpus).2 = warnings [] (declaredIn corpus)
    ∧ (warnings [] (declaredIn corpus)).length + (Index.addCorpus {} corpus).1.size
      = (declaredIn corpus).length := by
  obtain ⟨hrecords, hlog⟩ := Records.empty.addCorpus corpus
  refine ⟨⟨hrecords, Index.files_addCorpus {} corpus, hrecords.contains_iff⟩, hlog, ?_⟩
  have hsize : (Index.addCorpus {} corpus).1.size
      = ((declaredIn corpus).map (·.name)).eraseDups.length := by
    have hlength := congrArg List.length hrecords.names
    rwa [Table.keys, List.length_map] at hlength
  rw [hsize]
  exact length_warnings [] (declaredIn corpus)

theorem agrees_ofFiles {tree : FileTree} {paths : List Text} {index : Index}
    (h : (Index.ofFiles tree paths).2 = .ok index) : Agrees index (readable tree paths)
      ∧ index.failed = paths.filter (fun path => !Index.isReadable tree path)
      ∧ ∃ closing : Log.Entry, closing.level = .info
        ∧ (Index.ofFiles tree paths).1 = remarks tree [] paths ++ [closing] := by
  have hadd := Index.ofFiles_eq_ok_iff.1 h
  obtain ⟨hrecords, hremarks⟩ := Records.empty.addFiles hadd
  obtain ⟨hread, hfailed⟩ := Index.addFiles_kept hadd
  refine ⟨⟨hrecords, ?_, hrecords.contains_iff⟩, hfailed, ?_⟩
  · rw [files_readable]
    exact hread
  · rw [← hremarks, Index.ofFiles]
    rcases hall : Index.addFiles tree {} paths with ⟨log, e | found⟩
    · simp [hall] at hadd
    · exact ⟨_, by rfl, rfl⟩

/-- Scripts that are indexed one after the other are known as their lines say, and each declaration
of a name that was declared before is warned of. Of scripts at paths it is those that can be read,
and the others are kept in a list; a text among them that is no path is an error. -/
theorem agrees_of_scripts (corpus : Corpus) (tree : FileTree) (paths : List Text) :
    (Agrees (Index.addCorpus {} corpus).1 corpus
      ∧ (Index.addCorpus {} corpus).2 = warnings [] (declaredIn corpus)
      ∧ (warnings [] (declaredIn corpus)).length + (Index.addCorpus {} corpus).1.size
        = (declaredIn corpus).length)
    ∧ ((∀ path ∈ paths, Path.holdsNull path = false) → ∃ index,
      (Index.ofFiles tree paths).2 = .ok index
        ∧ Agrees index (readable tree paths)
        ∧ index.failed = paths.filter (fun path => !Index.isReadable tree path)
        ∧ ∃ closing : Log.Entry, closing.level = .info
          ∧ (Index.ofFiles tree paths).1 = remarks tree [] paths ++ [closing])
    ∧ ((∃ path ∈ paths, Path.holdsNull path = true) →
      (Index.ofFiles tree paths).2 = .error {}) := by
  refine ⟨agrees_addCorpus corpus, fun hpaths => ?_, Index.ofFiles_eq_error⟩
  obtain ⟨index, hindex⟩ := Index.exists_ofFiles_iff.2 hpaths
  exact ⟨index, hindex, agrees_ofFiles hindex⟩

/-- A script that declares a label and names it, and one that declares it again. -/
def twiceTree : FileTree := ⟨[], .ofList
  [(["a"], .file (Utf8.encode "A:\nJump @A")), (["b"], .file (Utf8.encode "\nA:"))]⟩

theorem agrees_of_scripts_twice :
    (∀ path ∈ [['a'], ['c'], ['b']], Path.holdsNull path = false)
      ∧ (Index.addCorpus {} [(['a'], ["A:", "A:"])]).1.contains ['A'] = true
      ∧ ∃ index, (Index.ofFiles twiceTree [['a'], ['c'], ['b']]).2 = .ok index
        ∧ index.definition? ['A'] = some ⟨['A'], ['b'], 1⟩
        ∧ index.callersOf ['A'] = [⟨['a'], 1, ['A']⟩]
        ∧ index.failed = [['c']] := by
  have hpaths : ∀ path ∈ [['a'], ['c'], ['b']], Path.holdsNull path = false := by decide
  obtain ⟨⟨hcorpus, -⟩, hfiles, -⟩ :=
    agrees_of_scripts [(['a'], ["A:", "A:"])] twiceTree [['a'], ['c'], ['b']]
  obtain ⟨index, hindex, hagrees, hfailed, -⟩ := hfiles hpaths
  refine ⟨hpaths, (hcorpus.present _).2 (by decide +kernel), index, hindex, ?_, ?_, ?_⟩
  · rw [hagrees.definition]
    decide +kernel
  · rw [hagrees.callersOf_eq]
    decide +kernel
  · rw [hfailed]
    decide +kernel

end Dialogue.Script
