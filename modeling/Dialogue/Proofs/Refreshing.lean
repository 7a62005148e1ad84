import Dialogue.Proofs.Corpus
import Dialogue.Proofs.Definitions
import Dialogue.Proofs.Generations

/-!
# Refreshes that return

A refresh passes over what it cannot use: a definition file that is no list, a dump that cannot be
read or names no label list, a script that cannot be read. It returns exactly if nothing else is in
the way (`Loads`): the objects of the definition files fit, no integer of a file is too long, the
patterns of the settings are texts that can be looked for, and nothing nests deeper than there is
room.
-/

namespace Dialogue

/-- The files of a folder that a pattern of the settings stands for. -/
def filesIn (tree : FileTree) (folder : Text) (pattern : Json) : List Text :=
  match pattern with
  | .string text =>
    if tree.isFolder folder then Text.sort (tree.expand (Path.join folder text)) else []
  | _ => []

/-- A pattern is a text, and no search for it ends with an error; or its folder is not there. -/
def PatternFits (room : Nat) (tree : FileTree) (folder : Text) (pattern : Json) : Prop :=
  tree.isFolder folder = true → ∃ text, pattern = .string text
    ∧ tree.searchDepth (Path.join folder text) ≤ room
    ∧ FileTree.looksInNull (Path.join folder text) = false

/-- The files that a pattern of the settings finds, or why there are none to be found. -/
def searchIn (room : Nat) (tree : FileTree) (folder : Text) (pattern : Json) :
    Except (Settings.PathError ⊕ FileTree.SearchError) (List Text) :=
  match Settings.patternIn tree folder pattern with
  | .error e => .error (.inl e)
  | .ok text =>
    if tree.isFolder folder then (tree.glob room folder text).mapError .inr else .ok []

theorem searchIn_eq_ok_iff {room : Nat} {tree : FileTree} {folder : Text} {pattern : Json}
    {found : List Text} : searchIn room tree folder pattern = .ok found
      ↔ PatternFits room tree folder pattern ∧ found = filesIn tree folder pattern := by
  unfold searchIn Settings.patternIn PatternFits filesIn
  by_cases hfolder : tree.isFolder folder = true
  · simp only [if_pos hfolder, imp_iff_right hfolder]
    cases pattern with
    | string text =>
      simp only [Settings.partOf, FileTree.glob, Json.string.injEq, exists_eq_left']
      split_ifs with hroom hnull
      · simp [Except.mapError, Nat.not_le.2 hroom]
      · simp [Except.mapError, hnull]
      · simp [Except.mapError, Nat.not_lt.1 hroom, hnull, eq_comm]
    | _ => simp [Settings.partOf]
  · simp only [hfolder, Bool.false_eq_true, false_imp_iff, true_and]
    cases pattern <;> simp [eq_comm]

namespace Store

/-- What the dump at a path decodes to; none if it is not read. -/
def dumpAt (tree : FileTree) (path : Text) : Option (Except Dump.Error Dump.Content) :=
  (Dump.Kind.ofPath? path).map fun kind => decodeFile tree kind path

/-- A dump that is passed over: it cannot be read, or names no label list. -/
def isSkipped (tree : FileTree) (path : Text) : Bool :=
  match dumpAt tree path with
  | some (.error .unreadable) => true
  | some (.error .noLabelArray) => true
  | _ => false

/-- A dump at which a load ends: an integer in it is too long to be read, or its path is none. -/
def EndsLoad (tree : FileTree) (path : Text) : Prop :=
  (∃ e, dumpAt tree path = some (.error (.overlong e)))
    ∨ ∃ e, dumpAt tree path = some (.error (.notAPath e))

theorem not_endsLoad_of_isSkipped {tree : FileTree} {path : Text} (h : isSkipped tree path = true) :
    ¬ EndsLoad tree path := by
  rintro (⟨e, hdump⟩ | ⟨e, hdump⟩) <;> simp [isSkipped, hdump] at h

theorem add_failed (store : Store) (path : Text) (kind : Dump.Kind) (content : Dump.Content) :
    (store.add path kind content).failed = store.failed := by
  cases content <;> rfl

theorem addFile_cases (tree : FileTree) (store : Store) (path : Text) :
    (EndsLoad tree path ∧ ∃ e, addFile tree store path = .error e)
      ∨ ¬ EndsLoad tree path ∧ ∃ next log, addFile tree store path = .ok (next, log)
        ∧ next.failed = store.failed ++ [path].filter (isSkipped tree) := by
  unfold addFile
  rcases hkind : Dump.Kind.ofPath? path with _ | kind
  · have hdump : dumpAt tree path = none := by rw [dumpAt, hkind]; rfl
    exact .inr ⟨by simp [EndsLoad, hdump], store, [], rfl, by simp [isSkipped, hdump]⟩
  have hdump : dumpAt tree path = some (decodeFile tree kind path) := by rw [dumpAt, hkind]; rfl
  simp only []
  rcases hdecode : decodeFile tree kind path with e | content <;> rw [hdecode] at hdump
  · cases e with
    | overlong e => exact .inl ⟨.inl ⟨e, hdump⟩, .overlong e, rfl⟩
    | notAPath e => exact .inl ⟨.inr ⟨e, hdump⟩, .notAPath e, rfl⟩
    | _ => exact .inr ⟨by simp [EndsLoad, hdump], _, _, rfl, by simp [isSkipped, hdump]⟩
  · exact .inr ⟨by simp [EndsLoad, hdump], _, _, rfl, by simp [add_failed, isSkipped, hdump]⟩

/-- Dumps are added one after the other unless the load ends at one of them, and the ones that are
passed over are kept in a list. -/
theorem addFiles_spec (tree : FileTree) : ∀ (store : Store) (paths : List Text),
    ((∃ next, (addFiles tree store paths).2 = .ok next) ↔ ∀ path ∈ paths, ¬ EndsLoad tree path)
      ∧ ∀ next, (addFiles tree store paths).2 = .ok next →
        next.failed = store.failed ++ paths.filter (isSkipped tree)
  | store, [] => by simp [addFiles]
  | store, path :: paths => by
    rcases addFile_cases tree store path with ⟨hends, e, he⟩ | ⟨hgoes, next, log, hok, hfailed⟩
    · simp [addFiles, he, hends]
    · obtain ⟨hiff, hskips⟩ := addFiles_spec tree next paths
      have hsnd : (addFiles tree store (path :: paths)).2 = (addFiles tree next paths).2 := by
        simp only [addFiles, hok]
      rw [hsnd, hiff]
      refine ⟨by simp [hgoes], fun final hfinal => ?_⟩
      rw [hskips final hfinal, hfailed, List.append_assoc, ← List.filter_append]
      rfl

theorem ofFiles_snd (tree : FileTree) (paths : List Text) :
    (ofFiles tree paths).2 = (addFiles tree {} paths).2 := by
  unfold ofFiles
  split <;> simp_all

end Store

namespace Workspace

variable {room : Room} {tree : FileTree} {project : Settings.Project}

/-- Nothing of a project is in the way of a load. -/
structure Loads (room : Room) (tree : FileTree) (project : Settings.Project) : Prop where
  hints : Schema.FileFits room.definitions tree
    (Path.join project.schemaFolder Schema.hintsFile) Command.HintFits
  definitions : Schema.FileFits room.definitions tree
    (Path.join project.schemaFolder Schema.commandsFile) Command.DefinitionFits
  assetPattern : PatternFits room.assets tree project.assetFolder project.assetPattern
  dumps : ∀ path ∈ filesIn tree project.assetFolder project.assetPattern,
    ¬ Store.EndsLoad tree path
  scriptPattern : PatternFits room.scripts tree project.scriptFolder project.scriptPattern
  scripts : ∀ path ∈ filesIn tree project.scriptFolder project.scriptPattern,
    Path.holdsNull path = false

/-- No string in the definition files of a project has half of a surrogate pair as an escape. -/
structure Paired (room : Room) (tree : FileTree) (project : Settings.Project) : Prop where
  hints : Schema.Paired room.definitions tree (Path.join project.schemaFolder Schema.hintsFile)
  definitions : Schema.Paired room.definitions tree
    (Path.join project.schemaFolder Schema.commandsFile)

/-- What a snapshot has of a project: the commands that are read from the objects of the definition
files, no dump that is passed over, and no script that cannot be read. -/
structure LoadedFrom (room : Room) (tree : FileTree) (project : Settings.Project)
    (snapshot : Snapshot) : Prop where
  hints : ∃ hints, Schema.commandsIn room.definitions tree Command.ofHint?
      (Path.join project.schemaFolder Schema.hintsFile) = .ok hints
    ∧ snapshot.schema.hints = Schema.tableOf hints
  definitions : ∃ commands, Schema.commandsIn room.definitions tree Command.ofDefinition?
      (Path.join project.schemaFolder Schema.commandsFile) = .ok commands
    ∧ snapshot.schema.commands = Schema.tableOf commands
  dumps : snapshot.messages.failed
    = (filesIn tree project.assetFolder project.assetPattern).filter (Store.isSkipped tree)
  scripts : snapshot.index.files
    = (filesIn tree project.scriptFolder project.scriptPattern).filter
      (Script.Index.isReadable tree)
  skippedScripts : snapshot.index.failed
    = (filesIn tree project.scriptFolder project.scriptPattern).filter
      fun path => !Script.Index.isReadable tree path

theorem loadMessages_eq_ok_iff {store : Store} : (loadMessages room tree project).2 = .ok store
    ↔ PatternFits room.assets tree project.assetFolder project.assetPattern
      ∧ (Store.addFiles tree {}
        (filesIn tree project.assetFolder project.assetPattern)).2 = .ok store := by
  have hload : (loadMessages room tree project).2 = .ok store ↔ ∃ found,
      searchIn room.assets tree project.assetFolder project.assetPattern = .ok found
        ∧ (Store.addFiles tree {} found).2 = .ok store := by
    unfold loadMessages searchIn Store.load
    rcases Settings.patternIn tree project.assetFolder project.assetPattern with e | text
    · simp
    by_cases hfolder : tree.isFolder project.assetFolder = true
    · simp only [hfolder, if_true]
      rcases tree.glob room.assets project.assetFolder text with e | found
      · simp [Except.mapError]
      · simp only [Except.mapError, Except.ok.injEq, exists_eq_left', Store.ofFiles_snd]
        rcases (Store.addFiles tree {} found).2 with e | store <;> simp
    · simp [hfolder, Except.mapError, Store.addFiles]
  simp only [hload, searchIn_eq_ok_iff, and_assoc, exists_and_left, exists_eq_left]

theorem loadMessages_spec (room : Room) (tree : FileTree) (project : Settings.Project) :
    ((∃ store, (loadMessages room tree project).2 = .ok store)
        ↔ PatternFits room.assets tree project.assetFolder project.assetPattern
          ∧ ∀ path ∈ filesIn tree project.assetFolder project.assetPattern,
            ¬ Store.EndsLoad tree path)
      ∧ ∀ store, (loadMessages room tree project).2 = .ok store → store.failed
        = (filesIn tree project.assetFolder project.assetPattern).filter
          (Store.isSkipped tree) := by
  obtain ⟨hiff, hskips⟩ := Store.addFiles_spec tree {}
    (filesIn tree project.assetFolder project.assetPattern)
  simp only [loadMessages_eq_ok_iff, exists_and_left, hiff, true_and]
  exact fun store hstore => hskips store hstore.2

theorem loadIndex_eq_ok_iff {index : Script.Index} : (loadIndex room tree project).2 = .ok index
    ↔ PatternFits room.scripts tree project.scriptFolder project.scriptPattern
      ∧ (Script.Index.ofFiles tree
        (filesIn tree project.scriptFolder project.scriptPattern)).2 = .ok index := by
  have hload : (loadIndex room tree project).2 = .ok index ↔ ∃ found,
      searchIn room.scripts tree project.scriptFolder project.scriptPattern = .ok found
        ∧ (Script.Index.ofFiles tree found).2 = .ok index := by
    unfold loadIndex searchIn Script.find
    rcases Settings.patternIn tree project.scriptFolder project.scriptPattern with e | text
    · simp
    by_cases hfolder : tree.isFolder project.scriptFolder = true
    · simp only [hfolder, if_true]
      rcases tree.glob room.scripts project.scriptFolder text with e | found
      · simp [Except.mapError]
      · simp only [Except.mapError, Except.ok.injEq, exists_eq_left']
        rcases (Script.Index.ofFiles tree found).2 with e | index <;> simp
    · simp only [hfolder, Bool.false_eq_true, if_false, Except.ok.injEq, exists_eq_left']
      rcases (Script.Index.ofFiles tree []).2 with e | index <;> simp [Except.mapError]
  simp only [hload, searchIn_eq_ok_iff, and_assoc, exists_and_left, exists_eq_left]

theorem loadIndex_spec (room : Room) (tree : FileTree) (project : Settings.Project) :
    ((∃ index, (loadIndex room tree project).2 = .ok index)
        ↔ PatternFits room.scripts tree project.scriptFolder project.scriptPattern
          ∧ ∀ path ∈ filesIn tree project.scriptFolder project.scriptPattern,
            Path.holdsNull path = false)
      ∧ ∀ index, (loadIndex room tree project).2 = .ok index →
        index.files = (filesIn tree project.scriptFolder project.scriptPattern).filter
            (Script.Index.isReadable tree)
          ∧ index.failed = (filesIn tree project.scriptFolder project.scriptPattern).filter
            fun path => !Script.Index.isReadable tree path := by
  simp only [loadIndex_eq_ok_iff, exists_and_left, Script.Index.exists_ofFiles_iff, true_and]
  exact fun index hindex => by
    simpa using Script.Index.addFiles_kept (Script.Index.ofFiles_eq_ok_iff.1 hindex.2)

theorem loadSnapshot_eq_ok_iff {snapshot : Snapshot} :
    (loadSnapshot room tree project).2 = .ok snapshot
      ↔ (Schema.load room.definitions tree project.schemaFolder).2 = .ok snapshot.schema
        ∧ (loadMessages room tree project).2 = .ok snapshot.messages
        ∧ (loadIndex room tree project).2 = .ok snapshot.index := by
  unfold loadSnapshot
  rcases Schema.load room.definitions tree project.schemaFolder with ⟨log, e | schema⟩
  · simp
  rcases loadMessages room tree project with ⟨more, e | messages⟩
  · simp
  rcases loadIndex room tree project with ⟨last, e | index⟩
  · simp [Except.map]
  · cases snapshot
    simp only [Except.map, Except.ok.injEq, Snapshot.mk.injEq]
    exact ⟨fun ⟨hm, hi, hs⟩ => ⟨hs, hm, hi⟩, fun ⟨hs, hm, hi⟩ => ⟨hm, hi, hs⟩⟩

theorem exists_loadSnapshot_iff (hpaired : Paired room tree project) :
    (∃ snapshot, (loadSnapshot room tree project).2 = .ok snapshot) ↔ Loads room tree project := by
  have hload := Schema.exists_load_iff hpaired.hints hpaired.definitions
  simp only [loadSnapshot_eq_ok_iff]
  constructor
  · rintro ⟨snapshot, hschema, hmessages, hindex⟩
    obtain ⟨hhints, hdefinitions⟩ := hload.1 ⟨_, hschema⟩
    obtain ⟨hassets, hdumps⟩ := (loadMessages_spec room tree project).1.1 ⟨_, hmessages⟩
    obtain ⟨hpattern, hscripts⟩ := (loadIndex_spec room tree project).1.1 ⟨_, hindex⟩
    exact ⟨hhints, hdefinitions, hassets, hdumps, hpattern, hscripts⟩
  · intro h
    obtain ⟨schema, hschema⟩ := hload.2 ⟨h.hints, h.definitions⟩
    obtain ⟨messages, hmessages⟩ :=
      (loadMessages_spec room tree project).1.2 ⟨h.assetPattern, h.dumps⟩
    obtain ⟨index, hindex⟩ :=
      (loadIndex_spec room tree project).1.2 ⟨h.scriptPattern, h.scripts⟩
    exact ⟨⟨messages, index, schema⟩, hschema, hmessages, hindex⟩

theorem loadedFrom_of_loadSnapshot {snapshot : Snapshot}
    (h : (loadSnapshot room tree project).2 = .ok snapshot) :
    LoadedFrom room tree project snapshot := by
  obtain ⟨hschema, hmessages, hindex⟩ := loadSnapshot_eq_ok_iff.1 h
  obtain ⟨hints, commands, hhints, hcommands, htable, hmore⟩ := Schema.load_eq_ok_iff.1 hschema
  obtain ⟨hscripts, hskipped⟩ := (loadIndex_spec room tree project).2 _ hindex
  exact ⟨⟨hints, hhints, (Schema.byName_eq_ok_iff.1 htable).2⟩,
    ⟨commands, hcommands, (Schema.byName_eq_ok_iff.1 hmore).2⟩,
    (loadMessages_spec room tree project).2 _ hmessages, hscripts, hskipped⟩

/-- A refresh returns the next generation exactly if nothing is in the way of a load, and then what
cannot be used was passed over. -/
theorem refresh_returns_iff {workspace : Workspace} (h : workspace.settings = some project)
    (hpaired : Paired room tree project) :
    ((workspace.refresh room tree).2.2 = .ok (workspace.generation + 1) ↔ Loads room tree project)
      ∧ (Loads room tree project →
        LoadedFrom room tree project (workspace.refresh room tree).1.snapshot) := by
  rw [← exists_loadSnapshot_iff hpaired]
  rcases refresh_cases h room tree with
    ⟨snapshot, hload, hswap, -, hanswer⟩ | ⟨e, hload, -, -, hanswer⟩
  · refine ⟨iff_of_true hanswer ⟨snapshot, hload⟩, fun _ => ?_⟩
    rw [hswap]
    exact loadedFrom_of_loadSnapshot hload
  · have hnone : ¬ ∃ snapshot, (loadSnapshot room tree project).2 = .ok snapshot := by
      simp [hload]
    exact ⟨iff_of_false (by simp [hanswer]) hnone, fun hsome => absurd hsome hnone⟩

/-- A folder with hints that are cut off, a dump without a label list, a folder that is named like a
script, and a script. -/
def sturdyTree : FileTree := ⟨[], .ofList
  [([['p']], .folder), (["p", "hints.json"], .file (Utf8.encode "[\x7b")),
   (["p", "m.asset"], .file (Utf8.encode "m")), (["p", "a.ev"], .folder),
   (["p", "b.ev"], .file (Utf8.encode "b:"))]⟩

theorem refresh_returns_iff_sturdy :
    ((ofSnapshot (some plainProject) {}).refresh plainRoom sturdyTree).2.2 = .ok 1
      ∧ Paired plainRoom sturdyTree plainProject
      ∧ Loads plainRoom sturdyTree plainProject
      ∧ (filesIn sturdyTree "/p" (.string "*.asset")).filter (Store.isSkipped sturdyTree)
        = ["/p/m.asset".toList]
      ∧ LoadedFrom plainRoom sturdyTree plainProject
        ((ofSnapshot (some plainProject) {}).refresh plainRoom sturdyTree).1.snapshot := by
  have hhints : sturdyTree.readLines (Path.join "/p" Schema.hintsFile) = .ok ["[\x7b".toList] := by
    decide +kernel
  have hdefinitions : sturdyTree.readLines (Path.join "/p" Schema.commandsFile)
      = .error (.refused .notFound) := by decide +kernel
  have hpaired : Paired plainRoom sturdyTree plainProject := by
    refine ⟨Schema.paired_of_unescaped fun lines hlines => ?_,
      Schema.paired_of_unescaped fun lines hlines => ?_⟩
    · obtain rfl := Except.ok.inj (hhints.symm.trans hlines)
      decide
    · cases hdefinitions.symm.trans hlines
  have hdumps : filesIn sturdyTree "/p" (.string "*.asset") = ["/p/m.asset".toList] := by
    decide +kernel
  have hskipped : Store.isSkipped sturdyTree "/p/m.asset" = true := by decide +kernel
  have hscripts : ∀ path ∈ sturdyTree.expand (Path.join "/p" "*.ev"),
      Path.holdsNull path = false := by decide +kernel
  have hloads : Loads plainRoom sturdyTree plainProject := by
    refine ⟨fun lines hlines => ?_, fun lines hlines => ?_, fun _ => ?_, fun path hpath => ?_,
      fun _ => ?_, fun path hpath => hscripts path (List.mem_mergeSort.1 hpath)⟩
    · obtain rfl := Except.ok.inj (hhints.symm.trans hlines)
      have hparse : Json.parse 4 (Text.unlines ["[\x7b".toList]) = .error .malformed := rfl
      refine ⟨fun e he => ?_, fun container hdeep => ?_, fun items hitems => ?_⟩
      · cases hparse.symm.trans he
      · cases hparse.symm.trans hdeep
      · cases hparse.symm.trans hitems
    · cases hdefinitions.symm.trans hlines
    · exact ⟨_, rfl, by decide +kernel, by decide +kernel⟩
    · obtain rfl : path = "/p/m.asset".toList := List.mem_singleton.1 (hdumps ▸ hpath)
      exact Store.not_endsLoad_of_isSkipped hskipped
    · exact ⟨_, rfl, by decide +kernel, by decide +kernel⟩
  have hsettings : (ofSnapshot (some plainProject) {}).settings = some plainProject := rfl
  obtain ⟨hiff, hloaded⟩ := refresh_returns_iff hsettings hpaired
  exact ⟨hiff.2 hloads, hpaired, hloads, by decide +kernel, hloaded hloads⟩

/-- Not every refresh returns the next generation. -/
theorem not_returns_of_spoiled :
    ¬ ∀ (room : Room) (tree : FileTree) (workspace : Workspace) (project : Settings.Project),
        workspace.settings = some project →
        (workspace.refresh room tree).2.2 = .ok (workspace.generation + 1) := by
  intro h
  have hreturns := h plainRoom spoiledTree (ofSnapshot (some plainProject) {}) plainProject rfl
  have hfails : ((ofSnapshot (some plainProject) {}).refresh plainRoom spoiledTree).2.2
      = .error (.schema (.definition (.notIterable "int"))) := by decide +kernel
  rw [hfails] at hreturns
  cases hreturns

end Workspace

end Dialogue
