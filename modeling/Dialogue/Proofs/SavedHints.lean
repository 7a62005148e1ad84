import Dialogue.Proofs.AllOrNothing
import Dialogue.Proofs.Definitions
import Dialogue.Proofs.Names
import Dialogue.Proofs.WrittenValues

/-!
# Hints that are saved and loaded again

Hints are saved as the objects that they were read from (`hintList_eq`), so what is read back from
the file are these objects (`objectsIn_saved`), and the hints of them are the hints that were saved.
But a file is read by its lines: if a string in the hints holds a line end that is written as it is,
the file is malformed and is passed over (`load_of_saveHints`).
-/

namespace Dialogue

namespace Command

open Json (Legible)

variable {limit : Nat}

/-- A command is the hint of its own source, which can be read as an item of a list. -/
structure IsHint (limit : Nat) (command : Command) : Prop where
  read : ofHint? command.source = .ok (some command)
  legible : Legible (limit - 1) (.object command.source)
  nameable : Nameable command.name

theorem nameable_of_legible {room : Nat} {v : Json} (h : Legible room v) (hname : IsName v)
    (htruthy : v.truthy = true) : Nameable v := by
  cases h with
  | null => cases htruthy
  | bool b => exact .bool b
  | int short => exact .int _
  | double canonical => exact .double canonical
  | string s => exact .string s
  | array legible => exact absurd rfl (hname.1 _)
  | object nodup legible => exact absurd rfl (hname.2 _)

theorem legible_field {room : Nat} {fields : List (Text × Json)}
    (h : Legible room (.object fields)) (name : Text) :
    Legible room ((Json.object fields).field name) := by
  cases h with
  | @object inner _ nodup legible =>
    unfold Json.field
    rcases hfind : fields.find? (fun f => f.1 == name) with _ | f
    · simpa [hfind] using .null
    · have hlegible := legible f (List.mem_of_find?_eq_some hfind)
      simpa [hfind] using hlegible.mono (Nat.le_succ inner)

theorem isHint_of_ofHint? {fields : List (Text × Json)} {command : Command}
    (h : ofHint? fields = .ok (some command)) (hname : IsName command.name)
    (hlegible : Legible (limit - 1) (.object fields)) : IsHint limit command := by
  obtain ⟨hsource, hcmd, htruthy⟩ := ofHint?_eq_ok h command rfl
  refine ⟨hsource.symm ▸ h, hsource.symm ▸ hlegible, ?_⟩
  rw [hcmd] at hname htruthy ⊢
  exact nameable_of_legible (legible_field hlegible "Cmd") hname htruthy

theorem IsHint.source_ne_nil {command : Command} (h : IsHint limit command) :
    command.source ≠ [] := by
  intro hnil
  have hread := h.read
  rw [hnil] at hread
  cases hread

theorem Nameable.isName {v : Json} (h : Nameable v) : IsName v := by
  cases h <;> simp [IsName]

theorem IsHint.hintFits {command : Command} (h : IsHint limit command) :
    HintFits command.source :=
  hintFits_iff.2 ⟨_, h.read, fun _ hmem => Option.some.inj hmem ▸ h.nameable.isName⟩

end Command

namespace Schema

open Command (IsHint HintFits DefinitionFits)
open Json (Legible)

variable {limit later room : Nat} {tree disk : FileTree} {folder other path : Text}
  {schema : Schema}

/-- The objects of a file that was read are legible. -/
theorem legible_of_objectsIn {items : List (List (Text × Json))}
    (h : objectsIn limit tree path = .ok items) :
    ∀ fields ∈ items, Legible (limit - 1) (.object fields) := by
  rcases objectsIn_cases h with rfl | ⟨lines, found, -, hparse, rfl⟩
  · simp
  · cases Json.legible_of_parse hparse with
    | array legible => exact fun fields hfields => legible _ (mem_objects.1 hfields)

theorem isHint_of_commandsIn {hints : List Command}
    (h : commandsIn limit tree Command.ofHint? path = .ok hints)
    (hnames : ∀ hint ∈ hints, Command.IsName hint.name) : ∀ hint ∈ hints, IsHint limit hint := by
  obtain ⟨items, results, hobjects, hresults, rfl⟩ := commandsIn_eq_ok_iff.1 h
  intro hint hmem
  obtain ⟨result, hresult, hsome⟩ := List.mem_filterMap.1 hmem
  obtain rfl : result = some hint := hsome
  obtain ⟨fields, hfields, hread⟩ := (mem_of_mapM hresults).2 _ hresult
  exact Command.isHint_of_ofHint? hread (hnames hint hmem)
    (legible_of_objectsIn hobjects fields hfields)

/-- The hints of a schema that was loaded. -/
theorem exists_hints_of_load (h : (load limit tree folder).2 = .ok schema) :
    ∃ hints, (∀ hint ∈ hints, IsHint limit hint) ∧ schema.hints = tableOf hints := by
  obtain ⟨hints, commands, hhints, -, htable, -⟩ := load_eq_ok_iff.1 h
  obtain ⟨hnames, htable⟩ := byName_eq_ok_iff.1 htable
  exact ⟨hints, isHint_of_commandsIn hhints hnames, htable⟩

theorem isHint_of_mem_values {hints : List Command} (h : ∀ hint ∈ hints, IsHint limit hint) :
    ∀ hint ∈ (tableOf hints).values, IsHint limit hint := by
  intro hint hmem
  obtain ⟨entry, hentry, rfl⟩ := List.mem_map.1 hmem
  refine Table.forall_mem_insertAll Table.empty (by simp [Table.empty]) (fun pair hpair => ?_) entry
    hentry
  obtain ⟨other, hother, rfl⟩ := List.mem_map.1 hpair
  exact h other hother

/-- Hints that were read are saved as the objects that they were read from. -/
theorem hintList_eq (h : ∀ hint ∈ schema.hints.values, IsHint limit hint) :
    schema.hintList = .array (schema.hints.values.map fun hint => .object hint.source) := by
  unfold hintList
  congr 1
  refine List.map_congr_left fun hint hmem => ?_
  rw [if_neg (by simpa using (h hint hmem).source_ne_nil)]

/-- The list of hints can be read by whoever could read the hints and can read a list at all. -/
theorem legible_hintList (h : ∀ hint ∈ schema.hints.values, IsHint limit hint)
    (hlater : limit ≤ later) (hlist : 0 < later) : Legible later schema.hintList := by
  obtain ⟨room, rfl⟩ := Nat.exists_eq_succ_of_ne_zero (Nat.ne_of_gt hlist)
  rw [hintList_eq h]
  refine .array fun v hv => ?_
  obtain ⟨hint, hmem, rfl⟩ := List.mem_map.1 hv
  exact (h hint hmem).legible.mono (by omega)

/-- No string in the hints holds a line end that is written as it is. -/
def IsUnbroken (schema : Schema) : Prop := ∀ s ∈ schema.hintList.texts, Json.Unbroken s

instance (schema : Schema) : Decidable schema.IsUnbroken :=
  List.decidableBAll Json.Unbroken schema.hintList.texts

/-- The hints that are read back from the file to which hints were saved. -/
def kept (schema : Schema) : List Command :=
  if schema.IsUnbroken then schema.hints.values else []

theorem isHint_of_mem_kept (h : ∀ hint ∈ schema.hints.values, IsHint limit hint) :
    ∀ hint ∈ schema.kept, IsHint limit hint := by
  unfold kept
  split
  · exact h
  · simp

/-- The text of the file to which hints were saved, as it is read by its lines. -/
theorem parse_saved (hhints : ∀ hint ∈ schema.hints.values, IsHint limit hint)
    (hlater : limit ≤ later) (hlist : 0 < later) : Json.parse later (Text.unlines (Text.lines
      (Encoding.dropMark (schema.hintList.pretty .unicode))))
      = if schema.IsUnbroken then .ok schema.hintList else .error .malformed := by
  have hlegible := legible_hintList hhints hlater hlist
  have heq := hintList_eq hhints
  rw [heq] at hlegible
  rw [heq, Json.unlines_lines_pretty hlegible, ← heq]
  exact Json.parse_pretty (heq ▸ hlegible)

theorem readLines_saved
    (hread : tree.readBytes path = .ok (Utf8.encode (schema.hintList.pretty .unicode))) :
    tree.readLines path
      = .ok (Text.lines (Encoding.dropMark (schema.hintList.pretty .unicode))) := by
  rw [FileTree.readLines, FileTree.readText, hread, ← Encoding.read_encode]
  rfl

theorem paired_saved (hhints : ∀ hint ∈ schema.hints.values, IsHint limit hint)
    (hlater : limit ≤ later) (hlist : 0 < later)
    (hread : tree.readBytes path = .ok (Utf8.encode (schema.hintList.pretty .unicode))) :
    Paired later tree path := by
  intro lines hlines
  obtain rfl := Except.ok.inj ((readLines_saved hread).symm.trans hlines)
  rw [parse_saved hhints hlater hlist]
  split <;> simp

theorem objectsIn_saved (hhints : ∀ hint ∈ schema.hints.values, IsHint limit hint)
    (hlater : limit ≤ later) (hlist : 0 < later)
    (hread : tree.readBytes path = .ok (Utf8.encode (schema.hintList.pretty .unicode))) :
    objectsIn later tree path = .ok (schema.kept.map (·.source)) := by
  have hlines := readLines_saved hread
  have htext := parse_saved hhints hlater hlist
  have hobjects : objects (schema.hints.values.map fun hint => .object hint.source)
      = schema.hints.values.map (·.source) := by
    simp [objects, List.filterMap_map]
  simp only [objectsIn, contains_of_readLines hlines, readList,
    FileTree.readLines?_eq_some_iff.2 hlines, htext, kept]
  by_cases h : schema.IsUnbroken
  · rw [if_pos h, if_pos h, hintList_eq hhints]
    simp only [hobjects]
    rfl
  · rw [if_neg h, if_neg h]
    rfl

theorem commandsIn_of_objectsIn {hints : List Command} (h : ∀ hint ∈ hints, IsHint limit hint)
    (hobjects : objectsIn later tree path = .ok (hints.map (·.source))) :
    commandsIn later tree Command.ofHint? path = .ok hints := by
  have hresults : (hints.map (·.source)).mapM Command.ofHint? = .ok (hints.map some) := by
    rw [mapM_eq_ok_iff, List.forall₂_map_left_iff, List.forall₂_map_right_iff, List.forall₂_same]
    exact fun hint hmem => (h hint hmem).read
  exact commandsIn_eq_ok_iff.2 ⟨_, _, hobjects, hresults, by simp [List.filterMap_map]⟩

theorem readLines_congr {after : FileTree}
    (h : ∀ content, after.readBytes path = .ok content ↔ tree.readBytes path = .ok content)
    (lines : List Text) : after.readLines path = .ok lines ↔ tree.readLines path = .ok lines := by
  have hlines : ∀ tree : FileTree, tree.readLines path = .ok lines
      ↔ ∃ content, tree.readBytes path = .ok content
        ∧ Text.lines (Encoding.read content) = lines := by
    intro tree
    unfold FileTree.readLines FileTree.readText
    rcases tree.readBytes path with cause | content <;> simp [Except.map]
  simp only [hlines, h]

theorem isName_hintsFile : Path.IsName hintsFile :=
  ⟨by decide, by decide, by decide, by decide⟩

/-- The same hints in the same order, under the same names. -/
structure SameHints (again schema : Schema) : Prop where
  values : again.hints.values = schema.hints.values
  keys : List.Forall₂ (fun a b => (a == b) = true) again.hints.keys schema.hints.keys

/-- The hints of the ones that are read back are the same if these are all. -/
theorem sameHints_iff {again : Schema} {hints : List Command}
    (hhints : ∀ hint ∈ hints, IsHint limit hint)
    (htable : schema.hints = tableOf hints) (hagain : again.hints = tableOf schema.kept) :
    SameHints again schema ↔ schema.IsUnbroken := by
  have hvalues := isHint_of_mem_values hhints
  rw [← htable] at hvalues
  constructor
  · intro hsame
    -- a broken schema is read back as no hints, but then it had none and is not broken
    by_contra hbroken
    have hnil : schema.hints.values = [] := by
      rw [← hsame.values, hagain, kept, if_neg hbroken]
      rfl
    refine hbroken ?_
    rw [IsUnbroken, hintList_eq hvalues, hnil]
    simp [Json.texts, Json.itemTexts]
  · intro hunbroken
    obtain ⟨htwice, hkeys⟩ := tableOf_values fun hint hmem => (hhints hint hmem).nameable
    rw [kept, if_pos hunbroken] at hagain
    rw [← htable, ← hagain] at htwice hkeys
    exact ⟨htwice, hkeys⟩

/-- Where a file can be replaced hints are saved unless their list cannot be written. -/
theorem saveHints_eq_ok_iff (hreplaces : (disk.replace path [] none).result = .ok ()) :
    (saveHints room disk schema path).result = .ok () ↔ schema.hintList.fault? room = none := by
  obtain ⟨-, hreplaceable⟩ := FileTree.result_eq_ok_iff.1 hreplaces
  rw [(saveHints_result_tree room disk schema path).1, FileTree.result_eq_ok_iff,
    and_iff_left hreplaceable, saveFault?, Option.map_eq_none_iff]

/-- Hints are saved where a file can be replaced and their list nests no deeper than the one who
writes can go, so always by one who can go as deep as the reader. Then the folder is loaded unless
its plain definitions are in the way, and the hints that are loaded are the ones that were saved
exactly if no string in them is cut; else there are none. -/
theorem load_of_saveHints (room : Nat) (hload : (load limit tree folder).2 = .ok schema)
    (hlater : limit ≤ later) (hlist : 0 < later)
    (hreplaces : (disk.replace (Path.join other hintsFile) [] none).result = .ok ())
    (hpaired : Paired later disk (Path.join other commandsFile)) :
    let saved := saveHints room disk schema (Path.join other hintsFile)
    (saved.result = .ok () ↔ schema.hintList.fault? room = none)
      ∧ (later ≤ room → saved.result = .ok ())
      ∧ (saved.result = .ok () →
        ((∃ again, (load later saved.tree other).2 = .ok again)
          ↔ FileFits later disk (Path.join other commandsFile) DefinitionFits)
        ∧ ∀ again, (load later saved.tree other).2 = .ok again →
          (SameHints again schema ↔ schema.IsUnbroken)
            ∧ (¬ schema.IsUnbroken → again.hints = ∅)) := by
  obtain ⟨hints, hhints, htable⟩ := exists_hints_of_load hload
  have hvalues := isHint_of_mem_values hhints
  rw [← htable] at hvalues
  have hsaves : (saveHints room disk schema (Path.join other hintsFile)).result = .ok ()
      ↔ schema.hintList.fault? room = none := saveHints_eq_ok_iff hreplaces
  intro saved
  refine ⟨hsaves, fun hroom => hsaves.2 ?_, fun hdone => ?_⟩
  · exact Json.fault?_of_legible ((legible_hintList hvalues hlater hlist).mono hroom)
  obtain ⟨after, hreplace, hread, hbeside⟩ := FileTree.replace_of_replace isName_hintsFile
    ⟨by decide, by decide, by decide, by decide⟩ hreplaces [schema.hintList.pretty .unicode]
  have hfault : schema.saveFault? room = none := by rw [saveFault?, hsaves.1 hdone]; rfl
  have hsaved : saved.tree = after := by
    rw [(saveHints_result_tree room disk schema (Path.join other hintsFile)).2, hfault, hreplace]
  rw [List.flatten_singleton] at hread
  have hkept := isHint_of_mem_kept hvalues
  have hobjects := objectsIn_saved hvalues hlater hlist hread
  have hlines := readLines_congr (hbeside commandsFile
    ⟨by decide, by decide, by decide, by decide⟩ (by decide) (by decide))
  have hbesidePaired : Paired later after (Path.join other commandsFile) := fun lines h =>
    hpaired lines ((hlines lines).1 h)
  have hhintsPaired := paired_saved hvalues hlater hlist hread
  rw [hsaved]
  refine ⟨?_, ?_⟩
  · rw [exists_load_iff hhintsPaired hbesidePaired]
    have hfits : FileFits later after (Path.join other hintsFile) HintFits := by
      refine (fileFits_iff hhintsPaired).2 ⟨_, hobjects, fun fields hfields => ?_⟩
      obtain ⟨hint, hmem, rfl⟩ := List.mem_map.1 hfields
      exact (hkept hint hmem).hintFits
    rw [and_iff_right hfits]
    simp only [FileFits, hlines]
  · intro again hagain
    obtain ⟨read, _, hreadback, -, hbyName, -⟩ := load_eq_ok_iff.1 hagain
    obtain ⟨-, htables⟩ := byName_eq_ok_iff.1 hbyName
    have hagain : again.hints = tableOf schema.kept := by
      rw [htables, Except.ok.inj (hreadback.symm.trans (commandsIn_of_objectsIn hkept hobjects))]
    refine ⟨sameHints_iff hhints htable hagain, fun hbroken => ?_⟩
    rw [hagain, kept, if_neg hbroken]
    rfl

/-- A folder with two hints of one name, the number one and the truth value, and a third one, and a
folder without hints. -/
def doubledTree : FileTree := ⟨[], .ofList
  [([['a']], .folder), ([['b']], .folder), (["a", "hints.json"], .file (Utf8.encode
    "[\x7b\"Cmd\":1\x7d,\x7b\"Cmd\":\"B\",\"Ref\":\"x\\ny\"\x7d,\x7b\"Cmd\":true\x7d]"))]⟩

theorem load_of_saveHints_doubled : ∃ schema, (load 2 doubledTree "/a").2 = .ok schema
    ∧ schema.hints.size = 2
    ∧ (saveHints 1 doubledTree schema "/b/hints.json").result ≠ .ok ()
    ∧ ∃ again, (load 2 (saveHints 2 doubledTree schema "/b/hints.json").tree "/b").2 = .ok again
      ∧ SameHints again schema := by
  have hwhole : (load 2 doubledTree "/a").2.toOption.all (fun schema => schema.hints.size == 2
      && decide schema.IsUnbroken && (schema.hintList.fault? 1).isSome) = true := by decide +kernel
  have hloads : (load 2 doubledTree "/a").2.isOk = true := by decide +kernel
  rcases hload : (load 2 doubledTree "/a").2 with e | schema
  · rw [hload] at hloads
    cases hloads
  simp only [hload, Except.toOption, Option.all_some, Bool.and_eq_true, beq_iff_eq,
    decide_eq_true_eq] at hwhole
  obtain ⟨⟨hsize, hunbroken⟩, hdeep⟩ := hwhole
  have hreplaces : (doubledTree.replace (Path.join "/b" hintsFile) [] none).result = .ok () := by
    decide +kernel
  have hmissing : doubledTree.readLines (Path.join "/b" commandsFile)
      = .error (.refused .notFound) := by decide +kernel
  have hunread : ∀ lines, doubledTree.readLines (Path.join "/b" commandsFile) ≠ .ok lines := by
    intro lines hlines
    rw [hmissing] at hlines
    cases hlines
  have hpaired : Paired 2 doubledTree (Path.join "/b" commandsFile) :=
    fun lines hlines => absurd hlines (hunread lines)
  obtain ⟨hsaves, -, -⟩ := load_of_saveHints 1 hload le_rfl (by decide) hreplaces hpaired
  obtain ⟨-, hdone, hloaded⟩ :=
    load_of_saveHints 2 hload le_rfl (by decide) hreplaces hpaired
  obtain ⟨hagain, hsame⟩ := hloaded (hdone le_rfl)
  obtain ⟨again, hread⟩ := hagain.2 fun lines hlines => absurd hlines (hunread lines)
  have hrefused : (saveHints 1 doubledTree schema "/b/hints.json").result ≠ .ok () := fun hok => by
    rw [hsaves.1 hok] at hdeep
    cases hdeep
  exact ⟨schema, rfl, hsize, hrefused, again, hread, (hsame again hread).1.2 hunbroken⟩

/-- A folder with a hint that has a line separator in its name, and one without hints. -/
def separatedTree : FileTree := ⟨[], .ofList
  [([['a']], .folder), ([['b']], .folder),
    (["a", "hints.json"], .file (Utf8.encode "[\x7b\"Cmd\":\"A\\u2028\"\x7d]"))]⟩

/-- Not all hints that are saved are loaded again. -/
theorem not_sameHints_of_separated :
    ¬ ∀ (limit room : Nat) (tree disk : FileTree) (folder other : Text) (schema again : Schema),
      (load limit tree folder).2 = .ok schema →
      (saveHints room disk schema (Path.join other hintsFile)).result = .ok () →
      (load limit (saveHints room disk schema (Path.join other hintsFile)).tree other).2
        = .ok again →
      SameHints again schema := by
  intro h
  have hloads : (load 2 separatedTree "/a").2.isOk = true := by decide +kernel
  rcases hload : (load 2 separatedTree "/a").2 with e | schema
  · rw [hload] at hloads
    cases hloads
  have hrun : (load 2 separatedTree "/a").2.toOption.all (fun schema =>
      let saved := saveHints 2 separatedTree schema (Path.join "/b" hintsFile)
      saved.result == .ok () && schema.hints.size == 1
        && (load 2 saved.tree "/b").2.toOption.any fun again => again.hints.size == 0) = true := by
    decide +kernel
  simp only [hload, Except.toOption, Option.all_some, Bool.and_eq_true, beq_iff_eq] at hrun
  obtain ⟨⟨hsaved, hone⟩, hnone⟩ := hrun
  rcases hagain : (load 2 (saveHints 2 separatedTree schema (Path.join "/b" hintsFile)).tree "/b").2
    with e | again
  · simp only [hagain] at hnone
    cases hnone
  · have hvalues := congrArg List.length (h _ _ _ _ _ _ _ _ hload hsaved hagain).values
    simp only [hagain, Option.any_some, beq_iff_eq] at hnone
    simp only [Table.values, List.length_map] at hvalues
    rw [Table.size] at hone hnone
    omega

end Schema

end Dialogue
