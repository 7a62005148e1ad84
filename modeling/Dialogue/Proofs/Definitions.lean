import Dialogue.Command.Schema
import Dialogue.Proofs.Legible
import Dialogue.Proofs.Locating

/-!
# Definitions that can be read

An object of a definition file is read if its name can be one, and if its parameters and their types
are lists where they are there at all (`HintFits`, `DefinitionFits`). A schema is loaded exactly if
all objects of its two files are of that kind (`load_eq_ok_iff`); a file that cannot be used has no
objects. Nothing is said of a file with half of a surrogate pair in a string (`Paired`).
-/

namespace Dialogue

/-- A list is read item by item: either each item is, or the first one that is not ends it. -/
theorem mapM_eq_ok_iff {α β ε : Type} {read : α → Except ε β} :
    ∀ {items : List α} {results : List β},
    items.mapM read = .ok results ↔ List.Forall₂ (fun a b => read a = .ok b) items results
  | [], results => by
    simp only [List.mapM_nil, pure, Except.pure, Except.ok.injEq, List.forall₂_nil_left_iff]
    exact eq_comm
  | a :: items, results => by
    rw [List.mapM_cons, List.forall₂_cons_left_iff]
    rcases ha : read a with e | b
    · refine iff_of_false (by simp [bind, Except.bind]) ?_
      rintro ⟨b, rest, hb, -⟩
      cases hb
    · rcases hrest : items.mapM read with e | rest
      · refine iff_of_false (by simp [bind, Except.bind]) ?_
        rintro ⟨b, rest, -, h, -⟩
        rw [mapM_eq_ok_iff.2 h] at hrest
        cases hrest
      · simp only [bind, Except.bind, pure, Except.pure, Except.ok.injEq]
        constructor
        · rintro rfl
          exact ⟨b, rest, rfl, mapM_eq_ok_iff.1 hrest, rfl⟩
        · rintro ⟨b', rest', rfl, h, rfl⟩
          rw [mapM_eq_ok_iff.2 h] at hrest
          cases hrest
          rfl

theorem exists_mapM_iff {α β ε : Type} {read : α → Except ε β} {items : List α} :
    (∃ results, items.mapM read = .ok results) ↔ ∀ a ∈ items, ∃ b, read a = .ok b := by
  simp only [mapM_eq_ok_iff]
  constructor
  · rintro ⟨results, h⟩
    induction h with
    | nil => simp
    | cons hab _ ih => exact List.forall_mem_cons.2 ⟨⟨_, hab⟩, ih⟩
  · intro h
    induction items with
    | nil => exact ⟨[], .nil⟩
    | cons a items ih =>
      obtain ⟨b, hb⟩ := h a (by simp)
      obtain ⟨results, hresults⟩ := ih fun a ha => h a (by simp [ha])
      exact ⟨b :: results, .cons hb hresults⟩

/-- Every item was read to one of the results, and every result was read from one of the items. -/
theorem mem_of_mapM {α β ε : Type} {read : α → Except ε β} {items : List α} {results : List β}
    (h : items.mapM read = .ok results) : (∀ a ∈ items, ∃ b ∈ results, read a = .ok b)
      ∧ ∀ b ∈ results, ∃ a ∈ items, read a = .ok b := by
  induction mapM_eq_ok_iff.1 h with
  | nil => simp
  | @cons a b items results hab hrest ih =>
    obtain ⟨hitems, hresults⟩ := ih (mapM_eq_ok_iff.2 hrest)
    constructor
    · refine List.forall_mem_cons.2 ⟨⟨b, by simp, hab⟩, fun x hx => ?_⟩
      obtain ⟨y, hy, hread⟩ := hitems x hx
      exact ⟨y, List.mem_cons_of_mem _ hy, hread⟩
    · refine List.forall_mem_cons.2 ⟨⟨a, by simp, hab⟩, fun y hy => ?_⟩
      obtain ⟨x, hx, hread⟩ := hresults y hy
      exact ⟨x, List.mem_cons_of_mem _ hx, hread⟩

namespace Command

/-- A value that has values in it. -/
inductive Iterable : Json → Prop
  | array (items : List Json) : Iterable (.array items)
  | string (s : Text) : Iterable (.string s)
  | object (fields : List (Text × Json)) : Iterable (.object fields)

/-- A value by which commands can be kept. -/
def IsName (v : Json) : Prop := (∀ items, v ≠ .array items) ∧ ∀ fields, v ≠ .object fields

/-- A value that gives the types of a parameter. -/
def TypesFit (v : Json) : Prop := v = .null ∨ Iterable v

/-- A value that gives a list, whose items are of a kind. -/
def ListFits (fits : Json → Prop) (v : Json) : Prop :=
  v.truthy = true → Iterable v ∧ ∀ items, v = .array items → ∀ item ∈ items, fits item

/-- A parameter of a hint that can be read: only one with an index is looked at. -/
def ParamFits (v : Json) : Prop :=
  (Ordinal.ofJson? (v.field "Index")).isSome = true → TypesFit (v.field "Type")

/-- A parameter of a plain definition that can be read: only an object is looked at. -/
def PlaceFits (v : Json) : Prop := isObject v = true → TypesFit (v.field "Type")

/-- A hint that can be read and kept: only one with a name is looked at. -/
def HintFits (fields : List (Text × Json)) : Prop :=
  ((Json.object fields).field "Cmd").truthy = true → IsName ((Json.object fields).field "Cmd")
    ∧ ListFits ParamFits ((Json.object fields).field "Params")

/-- A plain definition that can be read and kept: only one with a name is looked at. -/
def DefinitionFits (fields : List (Text × Json)) : Prop :=
  ((Json.object fields).field "Name").truthy = true → IsName ((Json.object fields).field "Name")
    ∧ ListFits PlaceFits ((Json.object fields).field "Args")

theorem exists_elements_iff {v : Json} : (∃ items, elements v = .ok items) ↔ Iterable v := by
  constructor
  · rintro ⟨items, h⟩
    unfold elements at h
    split at h
    · exact .array _
    · exact .string _
    · exact .object _
    · cases h
  · rintro (items | s | fields)
    · exact ⟨_, rfl⟩
    · exact ⟨_, rfl⟩
    · exact ⟨_, rfl⟩

theorem exists_nameOf_iff {v : Json} : (∃ name, nameOf v = .ok name) ↔ IsName v := by
  unfold nameOf IsName
  split <;> simp_all

theorem exists_typesOf_iff {v : Json} : (∃ types, typesOf v = .ok types) ↔ TypesFit v := by
  unfold typesOf TypesFit
  split
  · simp
  · exact ⟨fun _ => .inr (.string _), fun _ => ⟨_, rfl⟩⟩
  · rename_i hnull hstring
    rw [← exists_elements_iff]
    constructor
    · rintro ⟨types, h⟩
      rcases he : elements v with e | items
      · rw [he] at h
        cases h
      · exact .inr ⟨items, rfl⟩
    · rintro (rfl | ⟨items, hitems⟩)
      · exact absurd rfl hnull
      · exact ⟨_, by rw [hitems]; rfl⟩

theorem exists_hintParam?_iff {v : Json} : (∃ param, hintParam? v = .ok param) ↔ ParamFits v := by
  unfold hintParam? ParamFits
  rcases h : Ordinal.ofJson? (v.field "Index") with _ | index
  · simp
  · simp only [Option.isSome_some, true_imp_iff, ← exists_typesOf_iff]
    rcases ht : typesOf (v.field "Type") with e | types <;> simp [Except.map]

theorem exists_placeParam?_iff {v : Json} {place : Nat} :
    (∃ param, placeParam? v place = .ok param) ↔ PlaceFits v := by
  unfold placeParam? PlaceFits
  by_cases h : isObject v = true
  · simp only [h, Bool.not_true, Bool.false_eq_true, if_false, true_imp_iff, ← exists_typesOf_iff]
    rcases ht : typesOf (v.field "Type") with e | types <;> simp [Except.map]
  · simp [h]

/-- What the values of a list field are read to, if a text in the list never stands in the way. -/
theorem exists_listField_iff {α : Type} {fits : Json → Prop}
    {read : List Json → Except DefinitionError α}
    (hread : ∀ items, (∃ a, read items = .ok a) ↔ ∀ item ∈ items, fits item)
    (htext : ∀ s, fits (.string s)) {v : Json} :
    (∃ a, (listField v >>= read) = .ok a) ↔ ListFits fits v := by
  unfold listField ListFits
  by_cases hv : v.truthy = true
  · rw [if_pos hv, imp_iff_right hv]
    rcases he : elements v with e | items
    · have hno : ¬ Iterable v := fun h => by
        obtain ⟨items, hitems⟩ := exists_elements_iff.2 h
        rw [he] at hitems
        cases hitems
      simp [bind, Except.bind, hno]
    · have hyes : Iterable v := exists_elements_iff.1 ⟨items, he⟩
      have hitems : (∀ item ∈ items, fits item)
          ↔ ∀ inner, v = .array inner → ∀ item ∈ inner, fits item := by
        cases hyes with
        | array inner =>
          cases he
          simp
        | string s =>
          cases he
          simp [htext]
        | object fields =>
          cases he
          refine iff_of_true (fun item hitem => ?_) (by simp)
          obtain ⟨f, -, rfl⟩ := List.mem_map.1 hitem
          exact htext f.1
      change (∃ a, read items = .ok a) ↔ _
      rw [hread, hitems]
      exact ⟨fun h => ⟨hyes, h⟩, fun h => h.2⟩
  · rw [if_neg hv]
    exact iff_of_true ((hread []).2 (by simp)) fun h => absurd h hv

theorem exists_hintParams_iff {items : List Json} :
    (∃ params, hintParams items = .ok params) ↔ ∀ item ∈ items, ParamFits item := by
  simp only [← exists_hintParam?_iff, ← exists_mapM_iff, hintParams]
  rcases items.mapM hintParam? with e | params <;> simp [bind, Except.bind]

/-- The name, the parameters and the rest of a hint that is read. -/
theorem ofHint?_eq_ok {fields : List (Text × Json)} {result : Option Command}
    (h : ofHint? fields = .ok result) : ∀ command ∈ result,
      command.source = fields ∧ command.name = (Json.object fields).field "Cmd"
        ∧ command.name.truthy = true := by
  intro command hcommand
  obtain rfl := Option.mem_def.1 hcommand
  simp only [ofHint?] at h
  split at h
  · cases h
  · rename_i hname
    rcases hlist : listField ((Json.object fields).field "Params") with e | items
    · rw [hlist] at h
      cases h
    · rw [hlist] at h
      rcases hparams : hintParams items with e | params
      · simp only [bind, Except.bind, hparams] at h
        cases h
      · simp only [bind, Except.bind, hparams, Except.ok.injEq, Option.some.injEq] at h
        subst h
        exact ⟨rfl, rfl, by simpa using hname⟩

/-- An object with a name is read if the list in it is, and its command is kept if the name can
be. -/
theorem exists_named_iff {α : Type} {fits : Json → Prop} {name list : Json}
    {read : List Json → Except DefinitionError α} (make : α → Command)
    (hread : ∀ items, (∃ a, read items = .ok a) ↔ ∀ item ∈ items, fits item)
    (htext : ∀ s, fits (.string s)) (hname : ∀ a, (make a).name = name) :
    (∃ result, (if !name.truthy then .ok none
        else do
          let items ← listField list
          let a ← read items
          .ok (some (make a))) = (.ok result : Except DefinitionError (Option Command))
        ∧ ∀ command ∈ result, IsName command.name)
      ↔ (name.truthy = true → IsName name ∧ ListFits fits list) := by
  by_cases h : name.truthy = true
  · rw [if_neg (by simp [h]), imp_iff_right h, ← exists_listField_iff hread htext]
    rcases hlist : listField list with e | items
    · simp [bind, Except.bind]
    · rcases ha : read items with e | a <;> simp [bind, Except.bind, ha, hname]
  · rw [if_pos (by simpa using h)]
    exact iff_of_true ⟨none, rfl, by simp⟩ fun hyes => absurd hyes h

/-- A hint fits if it can be read and its name, if there is one, can be kept. -/
theorem hintFits_iff {fields : List (Text × Json)} :
    HintFits fields ↔ ∃ result, ofHint? fields = .ok result
      ∧ ∀ command ∈ result, IsName command.name :=
  let hint := Json.object fields
  (exists_named_iff
    (fun params => ⟨hint.field "Cmd", params, textField (hint.field "Description"), fields⟩)
    (fun _ => exists_hintParams_iff) (fun _ h => by cases h) fun _ => rfl).symm

theorem definitionFits_iff {fields : List (Text × Json)} :
    DefinitionFits fields ↔ ∃ result, ofDefinition? fields = .ok result
      ∧ ∀ command ∈ result, IsName command.name := by
  have hplaces : ∀ items : List Json,
      (∃ params, (items.zipIdx.mapM fun item => placeParam? item.1 item.2) = .ok params)
        ↔ ∀ item ∈ items, PlaceFits item := by
    intro items
    rw [exists_mapM_iff]
    simp only [exists_placeParam?_iff]
    conv_rhs => rw [← List.zipIdx_map_fst 0 items]
    rw [List.forall_mem_map]
  let definition := Json.object fields
  exact (exists_named_iff
    (fun params => ⟨definition.field "Name", params.filterMap id,
      textField (definition.field "Description"), fields⟩)
    hplaces (fun _ h => by cases h) fun _ => rfl).symm

end Command

namespace Schema

open Command (IsName HintFits DefinitionFits)

variable {limit : Nat} {tree : FileTree} {path : Text}

/-- The objects of the list in a file; none where the file is missing or cannot be used. -/
def objectsIn (limit : Nat) (tree : FileTree) (path : Text) :
    Except Error (List (List (Text × Json))) :=
  if !tree.contains path then .ok []
  else
    match readList limit tree path with
    | .error (.file _ _) => .ok []
    | result => result

/-- The commands that are read from a file. -/
def commandsIn (limit : Nat) (tree : FileTree)
    (read? : List (Text × Json) → Except Command.DefinitionError (Option Command)) (path : Text) :
    Except Error (List Command) :=
  match objectsIn limit tree path with
  | .error e => .error e
  | .ok items => (readAll read? items).mapError .definition

theorem commandsIn_eq_ok_iff
    {read? : List (Text × Json) → Except Command.DefinitionError (Option Command)}
    {commands : List Command} : commandsIn limit tree read? path = .ok commands
      ↔ ∃ items results, objectsIn limit tree path = .ok items ∧ items.mapM read? = .ok results
        ∧ commands = results.filterMap id := by
  unfold commandsIn readAll
  rcases objectsIn limit tree path with e | items
  · simp
  rcases hresults : items.mapM read? with e | results
  · simp [hresults, Except.map, Except.mapError]
  · simp [hresults, Except.map, Except.mapError, eq_comm]

theorem loadFile_snd
    (read? : List (Text × Json) → Except Command.DefinitionError (Option Command)) :
    (loadFile limit tree read? path).2 = commandsIn limit tree read? path := by
  unfold loadFile commandsIn objectsIn
  by_cases h : tree.contains path = true
  · rw [if_neg (by simp [h]), if_neg (by simp [h])]
    rcases readList limit tree path with (_ | _ | _ | _ | _) | items <;> rfl
  · rw [if_pos (by simpa using h), if_pos (by simpa using h)]
    rfl

/-- The table of commands, each under its name. -/
def tableOf (commands : List Command) : Table Command.Name Command :=
  .ofList (commands.map fun command => (⟨command.name⟩, command))

theorem nameOf_eq_ok {v : Json} (h : IsName v) : Command.nameOf v = .ok ⟨v⟩ := by
  unfold Command.nameOf
  split
  · exact absurd rfl (h.1 _)
  · exact absurd rfl (h.2 _)
  · rfl

theorem byName_eq_ok_iff {commands : List Command} {table : Table Command.Name Command} :
    byName commands = .ok table
      ↔ (∀ command ∈ commands, IsName command.name) ∧ table = tableOf commands := by
  have hfold : ∀ (commands : List Command) (start : Table Command.Name Command),
      commands.foldlM (fun table command =>
          (Command.nameOf command.name).map fun name => table.insert name command) start = .ok table
        ↔ (∀ command ∈ commands, IsName command.name)
          ∧ table = start.insertAll (commands.map fun command => (⟨command.name⟩, command)) := by
    intro commands
    induction commands with
    | nil =>
      intro start
      simp [pure, Except.pure, Table.insertAll, eq_comm]
    | cons command commands ih =>
      intro start
      rw [List.foldlM_cons, List.forall_mem_cons]
      by_cases hname : IsName command.name
      · rw [nameOf_eq_ok hname]
        change List.foldlM _ (start.insert ⟨command.name⟩ command) commands = _ ↔ _
        rw [ih]
        simp [hname, Table.insertAll]
      · rcases he : Command.nameOf command.name with e | name
        · simp [Except.map, bind, Except.bind, hname]
        · exact absurd (Command.exists_nameOf_iff.1 ⟨name, he⟩) hname
  exact hfold commands ∅

/-- A load has a schema where the commands of both files are read and can be kept. -/
theorem load_eq_ok_iff {folder : Text} {schema : Schema} :
    (load limit tree folder).2 = .ok schema ↔ ∃ hints commands,
      commandsIn limit tree Command.ofHint? (Path.join folder hintsFile) = .ok hints
        ∧ commandsIn limit tree Command.ofDefinition? (Path.join folder commandsFile) = .ok commands
        ∧ byName hints = .ok schema.hints ∧ byName commands = .ok schema.commands := by
  rw [← loadFile_snd, ← loadFile_snd]
  unfold load
  rcases loadFile limit tree Command.ofHint? (Path.join folder hintsFile) with ⟨log, e | hints⟩
  · simp
  rcases loadFile limit tree Command.ofDefinition? (Path.join folder commandsFile) with
    ⟨more, e | commands⟩
  · simp
  rcases hhints : byName hints with e | hintTable
  · simp [ofCommands, hhints, bind, Except.bind]
  rcases hcommands : byName commands with e | commandTable
  · simp [ofCommands, hhints, hcommands, bind, Except.bind]
  simp only [ofCommands, hhints, hcommands, bind, Except.bind, Except.ok.injEq]
  constructor
  · rintro rfl
    exact ⟨_, _, rfl, rfl, hhints, hcommands⟩
  · rintro ⟨_, _, rfl, rfl, htable, hmore⟩
    obtain rfl := Except.ok.inj (hhints.symm.trans htable)
    obtain rfl := Except.ok.inj (hcommands.symm.trans hmore)
    rfl

/-- No string in a file has half of a surrogate pair as an escape. -/
def Paired (limit : Nat) (tree : FileTree) (path : Text) : Prop :=
  ∀ lines, tree.readLines path = .ok lines →
    Json.parse limit (Text.unlines lines) ≠ .error .unpaired

theorem paired_of_unescaped (h : ∀ lines, tree.readLines path = .ok lines →
    ¬ ['\\', 'u'] <:+: Text.unlines lines) : Paired limit tree path :=
  fun lines hlines hparse => h lines hlines (Json.explains_of_parse hparse)

/-- A file is not in the way of a load: where it can be read it is refused neither for too many
digits nor for too many open brackets, and the objects of its list fit. -/
def FileFits (limit : Nat) (tree : FileTree) (path : Text) (fits : List (Text × Json) → Prop) :
    Prop :=
  ∀ lines, tree.readLines path = .ok lines →
    (∀ e, Json.parse limit (Text.unlines lines) ≠ .error (.overlong e))
      ∧ (∀ container, Json.parse limit (Text.unlines lines) ≠ .error (.tooDeep container))
      ∧ ∀ items, Json.parse limit (Text.unlines lines) = .ok (.array items) →
        ∀ fields, .object fields ∈ items → fits fields

theorem contains_of_readLines {lines : List Text} (h : tree.readLines path = .ok lines) :
    tree.contains path = true := by
  unfold FileTree.readLines FileTree.readText FileTree.readBytes at h
  rcases hstatus : tree.status path with cause | entry
  · rw [hstatus] at h
    cases h
  · rw [FileTree.contains, hstatus]
    rfl

theorem mem_objects {items : List Json} {fields : List (Text × Json)} :
    fields ∈ objects items ↔ .object fields ∈ items := by
  unfold objects
  rw [List.mem_filterMap]
  constructor
  · rintro ⟨v, hv, hfields⟩
    split at hfields
    · exact Option.some.inj hfields ▸ hv
    · cases hfields
  · exact fun h => ⟨_, h, rfl⟩

/-- Objects that are read from a file, if there are any, are those of the list in its text. -/
theorem objectsIn_cases {items : List (List (Text × Json))}
    (h : objectsIn limit tree path = .ok items) :
    items = [] ∨ ∃ lines found, tree.readLines path = .ok lines
      ∧ Json.parse limit (Text.unlines lines) = .ok (.array found) ∧ items = objects found := by
  unfold objectsIn readList at h
  split at h
  · exact .inl (Except.ok.inj h).symm
  rcases hlines : tree.readLines? path with e | _ | lines
  · simp only [hlines] at h
    cases h
  · simp only [hlines] at h
    exact .inl (Except.ok.inj h).symm
  rcases hparse : Json.parse limit (Text.unlines lines) with e | v
  · simp only [hlines, hparse] at h
    cases e <;> cases h
    exact .inl rfl
  · simp only [hlines, hparse] at h
    cases v with
    | array found =>
      exact .inr ⟨lines, found, FileTree.readLines?_eq_some_iff.1 hlines, hparse,
        (Except.ok.inj h).symm⟩
    | _ => exact .inl (Except.ok.inj h).symm

theorem fileFits_iff {fits : List (Text × Json) → Prop} (h : Paired limit tree path) :
    FileFits limit tree path fits
      ↔ ∃ items, objectsIn limit tree path = .ok items ∧ ∀ fields ∈ items, fits fields := by
  unfold FileFits objectsIn readList
  rcases hlines : tree.readLines path with (cause | e) | lines
  · by_cases hthere : tree.contains path = true <;> simp [hthere, FileTree.readLines?, hlines]
  · simp [tree.contains_of_holdsNull ((tree.readLines_eq_notAPath_iff e).1 hlines)]
  simp only [contains_of_readLines hlines, FileTree.readLines?, hlines, Bool.not_true,
    Bool.false_eq_true, if_false, Except.ok.injEq, forall_eq']
  rcases hparse : Json.parse limit (Text.unlines lines) with e | v
  · cases e with
    | unpaired => exact absurd hparse (h lines hlines)
    | _ => simp
  · cases v with
    | array items =>
      simp only [Except.ok.injEq, exists_eq_left', mem_objects, Json.array.injEq, forall_eq',
        ne_eq, reduceCtorEq, not_false_eq_true, implies_true, true_and]
    | _ => simp

/-- A file fits whose text has no run of too many digits and no more brackets than may be open at
once, if the objects in it fit. -/
theorem fileFits_of_short {fits : List (Text × Json) → Prop}
    (h : ∀ lines, tree.readLines path = .ok lines →
      (∀ run, run <:+: Text.unlines lines → Json.Digits run → run.length ≤ Text.maxDigits)
        ∧ Json.brackets (Text.unlines lines) ≤ limit
        ∧ ∀ items, Json.parse limit (Text.unlines lines) = .ok (.array items) →
          ∀ fields, .object fields ∈ items → fits fields) : FileFits limit tree path fits := by
  intro lines hlines
  obtain ⟨hdigits, hbrackets, hitems⟩ := h lines hlines
  refine ⟨fun e he => ?_, fun container he => ?_, hitems⟩
  · obtain ⟨run, hrun, hall, hlong, -⟩ := Json.explains_of_parse he
    have := hdigits run hrun hall
    omega
  · exact absurd (Json.explains_of_parse he) (Nat.not_lt.2 hbrackets)

theorem exists_byName_iff
    {read? : List (Text × Json) → Except Command.DefinitionError (Option Command)}
    {fits : List (Text × Json) → Prop} (h : Paired limit tree path)
    (hfits : ∀ fields, fits fields ↔ ∃ result, read? fields = .ok result
      ∧ ∀ command ∈ result, IsName command.name) :
    (∃ commands table, commandsIn limit tree read? path = .ok commands
        ∧ byName commands = .ok table)
      ↔ FileFits limit tree path fits := by
  simp only [fileFits_iff h, hfits]
  constructor
  · rintro ⟨commands, table, hcommands, htable⟩
    obtain ⟨items, results, hobjects, hresults, rfl⟩ := commandsIn_eq_ok_iff.1 hcommands
    have hnames := (byName_eq_ok_iff.1 htable).1
    refine ⟨items, hobjects, fun fields hfields => ?_⟩
    obtain ⟨result, hmem, hresult⟩ := (mem_of_mapM hresults).1 fields hfields
    exact ⟨result, hresult, fun command hcommand => hnames command
      (List.mem_filterMap.2 ⟨result, hmem, hcommand⟩)⟩
  · rintro ⟨items, hobjects, h⟩
    obtain ⟨results, hresults⟩ := exists_mapM_iff.2 fun fields hfields =>
      (h fields hfields).imp fun _ hr => hr.1
    refine ⟨results.filterMap id, _, commandsIn_eq_ok_iff.2 ⟨items, results, hobjects, hresults, rfl⟩,
      byName_eq_ok_iff.2 ⟨fun command hcommand => ?_, rfl⟩⟩
    obtain ⟨result, hmem, hcommand⟩ := List.mem_filterMap.1 hcommand
    obtain ⟨fields, hfields, hread⟩ := (mem_of_mapM hresults).2 result hmem
    obtain ⟨result', hread', hname⟩ := h fields hfields
    obtain rfl := Except.ok.inj (hread.symm.trans hread')
    exact hname command hcommand

/-- A schema is loaded exactly if all objects of its two files can be read and kept. -/
theorem exists_load_iff {folder : Text} (hhints : Paired limit tree (Path.join folder hintsFile))
    (hcommands : Paired limit tree (Path.join folder commandsFile)) :
    (∃ schema, (load limit tree folder).2 = .ok schema)
      ↔ FileFits limit tree (Path.join folder hintsFile) HintFits
        ∧ FileFits limit tree (Path.join folder commandsFile) DefinitionFits := by
  rw [← exists_byName_iff hhints fun _ => Command.hintFits_iff,
    ← exists_byName_iff hcommands fun _ => Command.definitionFits_iff]
  simp only [load_eq_ok_iff]
  constructor
  · rintro ⟨schema, hints, commands, hhints, hcommands, htable, hmore⟩
    exact ⟨⟨hints, _, hhints, htable⟩, commands, _, hcommands, hmore⟩
  · rintro ⟨⟨hints, table, hhints, htable⟩, commands, more, hcommands, hmore⟩
    exact ⟨⟨table, more⟩, hints, commands, hhints, hcommands, htable, hmore⟩

end Schema

end Dialogue
