import Dialogue.Proofs.Overlays
import Dialogue.Proofs.Refreshing
import Dialogue.Proofs.Stems

/-!
# A store is the merge of its dumps

Dumps are decoded one by one (`decodedIn`), and a store is what they give when each is put in at its
place (`Merges`): a key shows the last message file that has it, and speaker names, name tables and
forms are each laid over each other. One more dump keeps this (`Merges.put`), so it holds of every
list of paths, and a path that is skipped or fails leaves no trace but in the list of failed files
(`merges_of_files`).
-/

namespace Dialogue

namespace Dump

/-- A dump that was decoded. -/
structure Decoded where
  path : Text
  kind : Kind
  content : Content

namespace Decoded

/-- The messages of a dump of messages or of speaker names. -/
def messages? : Decoded → Option Messages
  | ⟨_, .messages, .messages found⟩ => some found
  | ⟨_, .speakers, .messages found⟩ => some found
  | _ => none

/-- The messages that a dump has under a key. -/
def messagesUnder? (key : Text) (dump : Decoded) : Option Messages :=
  if (aliases dump.path).contains key then dump.messages? else none

def speakers? : Decoded → Option Messages
  | ⟨_, .speakers, .messages found⟩ => some found
  | _ => none

def nameTable? (wanted : Text) : Decoded → Option Names
  | ⟨path, .nameTable, .names found⟩ => if category path = wanted then some found else none
  | _ => none

def formTable? : Decoded → Option Names
  | ⟨_, .formTable, .names found⟩ => some found
  | _ => none

end Decoded

/-- What a dump of a kind decodes to: messages with their labels in lower case, or names, each table
without a repeated key. -/
def Content.OfKind (kind : Kind) : Content → Prop
  | .messages found => (kind = .messages ∨ kind = .speakers) ∧ Keyed found
  | .names found => (kind = .nameTable ∨ kind = .formTable) ∧ Table.Distinct found.entries

theorem ofKind_of_decode {kind : Kind} {text : Text} {content : Content}
    (h : kind.decode text = .ok content) : content.OfKind kind := by
  have hmessages : ∀ layout, (decode layout text).map .messages = .ok content →
      ∃ found, content = .messages found ∧ Keyed found := by
    intro layout hmap
    rcases hdecode : decode layout text with e | found <;> rw [hdecode] at hmap
    · cases hmap
    · cases hmap
      exact ⟨found, rfl, keyed_of_decode hdecode⟩
  have hnames : ∀ heading, ((decodeNames heading text).map .names).mapError Error.overlong
      = .ok content → ∃ found, content = .names found ∧ Table.Distinct found.entries := by
    intro heading hmap
    rcases hdecode : decodeNames heading text with e | found <;> rw [hdecode] at hmap
    · cases hmap
    · cases hmap
      exact ⟨found, rfl, distinct_of_decodeNames hdecode⟩
  cases kind with
  | messages =>
    obtain ⟨found, rfl, hfound⟩ := hmessages .table h
    exact ⟨.inl rfl, hfound⟩
  | speakers =>
    obtain ⟨found, rfl, hfound⟩ := hmessages .labelList h
    exact ⟨.inr rfl, hfound⟩
  | nameTable =>
    obtain ⟨found, rfl, hfound⟩ := hnames .index h
    exact ⟨.inl rfl, hfound⟩
  | formTable =>
    obtain ⟨found, rfl, hfound⟩ := hnames .form h
    exact ⟨.inr rfl, hfound⟩

/-- A dump whose kind is told by its name, and whose content is of that kind. -/
structure Decoded.Fits (dump : Decoded) : Prop where
  kind_eq : Kind.ofPath? dump.path = some dump.kind
  content : dump.content.OfKind dump.kind

end Dump

namespace Store

variable {tree : FileTree} {paths : List Text}

/-- What the dump at a path is decoded to by itself. -/
def decoded? (tree : FileTree) (path : Text) : Option Dump.Decoded :=
  (Dump.Kind.ofPath? path).bind fun kind =>
    (decodeFile tree kind path).toOption.map fun content => ⟨path, kind, content⟩

def decodedIn (tree : FileTree) (paths : List Text) : List Dump.Decoded :=
  paths.filterMap (decoded? tree)

def isDecoded (tree : FileTree) (path : Text) : Bool := (decoded? tree path).isSome

/-- The table of a category of names. -/
def namesOf (store : Store) (category : Text) : Dump.Names :=
  (store.names.get? category).getD ∅

/-- The store is what the dumps give when each is put in at its place. -/
structure Merges (dumps : List Dump.Decoded) (store : Store) : Prop where
  labels_eq : ∀ file, store.labels file
    = (dumps.reverse.findSome? (Dump.Decoded.messagesUnder? (Text.lower file))).getD ∅
  speakers : Table.IsOverlay (dumps.filterMap Dump.Decoded.speakers?) store.speakers
  names : ∀ category ∈ Dump.nameMarkers,
    Table.IsOverlay (dumps.filterMap (Dump.Decoded.nameTable? category)) (store.namesOf category)
  forms : Table.IsOverlay (dumps.filterMap Dump.Decoded.formTable?)
    (store.namesOf Dump.formCategory)
  others : ∀ category, category ∉ Dump.nameMarkers → category ≠ Dump.formCategory →
    store.namesOf category = ∅

theorem name?_eq (store : Store) (category : Text) (key : Dump.NameKey) :
    store.name? category key = (store.namesOf category).get? key := by
  unfold name? namesOf
  rcases store.names.get? category with _ | table <;> rfl

theorem decoded?_eq_some {path : Text} {dump : Dump.Decoded} : decoded? tree path = some dump
    ↔ dump.path = path ∧ Dump.Kind.ofPath? path = some dump.kind
      ∧ decodeFile tree dump.kind path = .ok dump.content := by
  unfold decoded?
  constructor
  · intro h
    obtain ⟨kind, hkind, hcontent⟩ := Option.bind_eq_some_iff.1 h
    obtain ⟨content, hdecode, rfl⟩ := Option.map_eq_some_iff.1 hcontent
    refine ⟨rfl, hkind, ?_⟩
    rcases hfile : decodeFile tree kind path with e | found <;> rw [hfile] at hdecode <;>
      cases hdecode
    rfl
  · rintro ⟨rfl, hkind, hdecode⟩
    simp [hkind, hdecode, Except.toOption]

theorem fits_of_decoded? {path : Text} {dump : Dump.Decoded} (h : decoded? tree path = some dump) :
    dump.Fits := by
  obtain ⟨rfl, hkind, hdecode⟩ := decoded?_eq_some.1 h
  refine ⟨hkind, ?_⟩
  unfold decodeFile at hdecode
  split at hdecode
  · cases hdecode
  · cases hdecode
  · exact Dump.ofKind_of_decode hdecode

theorem decoded?_of_isSkipped {path : Text} (h : isSkipped tree path = true) :
    decoded? tree path = none := by
  rcases hdump : decoded? tree path with _ | dump
  · rfl
  · obtain ⟨rfl, hkind, hdecode⟩ := decoded?_eq_some.1 hdump
    simp [isSkipped, dumpAt, hkind, hdecode] at h

theorem get?_foldl_insert (found : Dump.Messages) (key : Text) : ∀ (keys : List Text)
    (table : Table Text Dump.Messages),
    (keys.foldl (fun table key => table.insert key found) table).get? key
      = if key ∈ keys then some found else table.get? key
  | [], table => by simp
  | other :: keys, table => by
    rw [List.foldl_cons, get?_foldl_insert found key keys, Table.get?_insert]
    by_cases h : key ∈ keys
    · simp [h]
    · simp [h]

theorem labels_add (store : Store) (path : Text) (kind : Dump.Kind) (found : Dump.Messages)
    (file : Text) : (store.add path kind (.messages found)).labels file
      = if Text.lower file ∈ Dump.aliases path then found else store.labels file := by
  rw [labels, add, get?_foldl_insert]
  split <;> rfl

/-- The category that a dump of names is put in. -/
def categoryOf (path : Text) (kind : Dump.Kind) : Text :=
  if kind = .formTable then Dump.formCategory else Dump.category path

theorem namesOf_add (store : Store) (path : Text) (kind : Dump.Kind) (found : Dump.Names)
    (category : Text) : (store.add path kind (.names found)).namesOf category
      = if category = categoryOf path kind then (store.namesOf category).overlay found
        else store.namesOf category := by
  have hget : (store.add path kind (.names found)).names.get? category
      = if category = categoryOf path kind
        then some ((store.namesOf (categoryOf path kind)).overlay found)
        else store.names.get? category := Table.get?_insert _ _ _ _
  rw [namesOf, hget]
  split
  · rename_i heq
    rw [← heq]
    rfl
  · rfl

theorem Merges.empty : Merges [] {} where
  labels_eq _ := rfl
  speakers := .nil
  names _ _ := .nil
  forms := .nil
  others _ _ _ := rfl

theorem filterMap_concat {α β : Type} (f : α → Option β) (items : List α) (a : α) :
    (items ++ [a]).filterMap f = items.filterMap f ++ (f a).toList := by
  rw [List.filterMap_append]
  rcases h : f a with _ | b <;> simp [h]

section Add

variable {dumps : List Dump.Decoded} {store : Store} {path : Text} {kind : Dump.Kind}

theorem Merges.addMessages (h : Merges dumps store) {found : Dump.Messages}
    (hkind : kind = .messages ∨ kind = .speakers) (hfound : Dump.Keyed found) :
    Merges (dumps ++ [⟨path, kind, .messages found⟩]) (store.add path kind (.messages found)) := by
  have hunder : ∀ key, Dump.Decoded.messagesUnder? key ⟨path, kind, .messages found⟩
      = if (Dump.aliases path).contains key then some found else none := by
    rcases hkind with rfl | rfl <;> exact fun _ => rfl
  have hnames : ∀ category,
      Dump.Decoded.nameTable? category ⟨path, kind, .messages found⟩ = none := by
    rcases hkind with rfl | rfl <;> exact fun _ => rfl
  have hforms : Dump.Decoded.formTable? ⟨path, kind, .messages found⟩ = none := by
    rcases hkind with rfl | rfl <;> rfl
  constructor
  · intro file
    rw [labels_add, h.labels_eq, List.reverse_append, List.reverse_singleton,
      List.singleton_append, List.findSome?_cons, hunder]
    by_cases hmem : Text.lower file ∈ Dump.aliases path <;> simp [hmem]
  · rw [filterMap_concat]
    rcases hkind with rfl | rfl
    · rw [Dump.Decoded.speakers?, Option.toList_none, List.append_nil]
      · exact h.speakers
      · simp
    · exact h.speakers.overlay hfound.distinct
  · intro category hcategory
    rw [filterMap_concat, hnames, Option.toList_none, List.append_nil]
    exact h.names category hcategory
  · rw [filterMap_concat, hforms, Option.toList_none, List.append_nil]
    exact h.forms
  · exact h.others

theorem Merges.addNames (h : Merges dumps store) {found : Dump.Names}
    (hpath : Dump.Kind.ofPath? path = some kind) (hkind : kind = .nameTable ∨ kind = .formTable)
    (hfound : Table.Distinct found.entries) :
    Merges (dumps ++ [⟨path, kind, .names found⟩]) (store.add path kind (.names found)) := by
  have hunder : ∀ key, Dump.Decoded.messagesUnder? key ⟨path, kind, .names found⟩ = none := by
    rcases hkind with rfl | rfl <;> exact fun _ => ite_self _
  have hspeakers : Dump.Decoded.speakers? ⟨path, kind, .names found⟩ = none := by
    rcases hkind with rfl | rfl <;> rfl
  have hform : Dump.formCategory ∉ Dump.nameMarkers := by decide
  constructor
  · intro file
    rw [List.reverse_append, List.reverse_singleton, List.singleton_append, List.findSome?_cons,
      hunder]
    exact h.labels_eq file
  · rw [filterMap_concat, hspeakers, Option.toList_none, List.append_nil]
    exact h.speakers
  · intro category hcategory
    rw [filterMap_concat, namesOf_add]
    have hcase := h.names category hcategory
    rcases hkind with rfl | rfl
    · by_cases heq : Dump.category path = category
      · simpa [Dump.Decoded.nameTable?, categoryOf, heq] using hcase.overlay hfound
      · simpa [Dump.Decoded.nameTable?, categoryOf, heq, Ne.symm heq] using hcase
    · have hne : category ≠ Dump.formCategory := fun heq => hform (heq ▸ hcategory)
      simpa [Dump.Decoded.nameTable?, categoryOf, hne] using hcase
  · rw [filterMap_concat, namesOf_add]
    rcases hkind with rfl | rfl
    · have hne : Dump.formCategory ≠ Dump.category path := fun heq =>
        hform (heq ▸ Dump.category_mem_of_nameTable hpath)
      simpa [Dump.Decoded.formTable?, categoryOf, hne] using h.forms
    · simpa [Dump.Decoded.formTable?, categoryOf] using h.forms.overlay hfound
  · intro category hmarker hcategory
    rw [namesOf_add, if_neg, h.others category hmarker hcategory]
    rcases hkind with rfl | rfl
    · exact fun heq => hmarker (heq ▸ Dump.category_mem_of_nameTable hpath)
    · exact hcategory

end Add

/-- The store with one more dump. -/
def put (store : Store) (dump : Dump.Decoded) : Store := store.add dump.path dump.kind dump.content

/-- A dump is put in at its place and leaves the others alone. -/
theorem Merges.put {dumps : List Dump.Decoded} {store : Store} (h : Merges dumps store)
    {dump : Dump.Decoded} (hdump : dump.Fits) :
    Merges (dumps ++ [dump]) (store.put dump) := by
  obtain ⟨path, kind, found | found⟩ := dump
  · exact h.addMessages hdump.content.1 hdump.content.2
  · exact h.addNames hdump.kind_eq hdump.content.1 hdump.content.2

/-- The failed files are only kept. -/
theorem foldl_put_failed (failed : List Text) : ∀ (dumps : List Dump.Decoded) (store : Store),
    dumps.foldl put { store with failed } = { dumps.foldl put store with failed }
  | [], _ => rfl
  | dump :: dumps, store => by
    have hput : { store with failed }.put dump = { store.put dump with failed } := by
      obtain ⟨path, kind, found | found⟩ := dump <;> rfl
    rw [List.foldl_cons, hput, foldl_put_failed failed dumps]
    rfl

/-- One more path: its dump, if it is decoded, is put in, and a path that fails is kept. -/
theorem addFile_eq {path : Text} (h : ¬ EndsLoad tree path) (store : Store) :
    ∃ log, addFile tree store path = .ok ({ (decoded? tree path).toList.foldl put store with
      failed := store.failed ++ [path].filter (isSkipped tree) }, log) := by
  rcases hkind : Dump.Kind.ofPath? path with _ | kind
  · refine ⟨[], ?_⟩
    simp [addFile, decoded?, isSkipped, dumpAt, hkind]
  rcases hdecode : decodeFile tree kind path with e | content
  · cases e with
    | overlong e => exact absurd (.inl ⟨e, by simp [dumpAt, hkind, hdecode]⟩) h
    | notAPath e => exact absurd (.inr ⟨e, by simp [dumpAt, hkind, hdecode]⟩) h
    | _ =>
      exact ⟨_, by
        simp [addFile, decoded?, isSkipped, dumpAt, hkind, hdecode, Except.toOption]; rfl⟩
  · refine ⟨[], ?_⟩
    have hfailed := add_failed store path kind content
    simp [addFile, decoded?, isSkipped, dumpAt, hkind, hdecode, Except.toOption, put, ← hfailed]

/-- A list of paths: the dumps that are decoded are put in, one after the other. -/
theorem addFiles_eq : ∀ {paths : List Text}, (∀ path ∈ paths, ¬ EndsLoad tree path) →
    ∀ store : Store, (addFiles tree store paths).2
      = .ok { (decodedIn tree paths).foldl put store with
        failed := store.failed ++ paths.filter (isSkipped tree) }
  | [], _, store => by simp [addFiles, decodedIn]
  | path :: paths, h, store => by
    obtain ⟨hpath, hpaths⟩ := List.forall_mem_cons.1 h
    obtain ⟨log, hadd⟩ := addFile_eq hpath store
    have hrest := addFiles_eq hpaths { (decoded? tree path).toList.foldl put store with
      failed := store.failed ++ [path].filter (isSkipped tree) }
    have hdumps : decodedIn tree (path :: paths)
        = (decoded? tree path).toList ++ decodedIn tree paths := by
      unfold decodedIn
      rcases hdump : decoded? tree path with _ | dump <;> simp [hdump]
    simp only [addFiles, hadd, hrest, hdumps, List.foldl_append, foldl_put_failed,
      List.append_assoc, ← List.filter_append, List.singleton_append]

theorem merges_foldl : ∀ {more dumps : List Dump.Decoded} {store : Store}, Merges dumps store →
    (∀ dump ∈ more, dump.Fits) → Merges (dumps ++ more) (more.foldl put store)
  | [], dumps, store, h, _ => by simpa using h
  | dump :: more, dumps, store, h, hmore => by
    obtain ⟨hdump, hrest⟩ := List.forall_mem_cons.1 hmore
    have hall := merges_foldl (h.put hdump) hrest
    rwa [List.append_assoc] at hall

theorem merges_decodedIn (tree : FileTree) (paths : List Text) :
    Merges (decodedIn tree paths) ((decodedIn tree paths).foldl put {}) := by
  refine merges_foldl .empty fun dump hdump => ?_
  obtain ⟨path, -, hpath⟩ := List.mem_filterMap.1 hdump
  exact fits_of_decoded? hpath

/-- A store of paths that decode or fail. -/
theorem ofFiles_eq (h : ∀ path ∈ paths, ¬ EndsLoad tree path) : (ofFiles tree paths).2
    = .ok { (decodedIn tree paths).foldl put {} with failed := paths.filter (isSkipped tree) } :=
  (ofFiles_snd tree paths).trans (addFiles_eq h {})

/-- The failed files say nothing of what was decoded. -/
theorem Merges.failed {dumps : List Dump.Decoded} {store : Store} (h : Merges dumps store)
    (failed : List Text) : Merges dumps { store with failed } :=
  ⟨h.labels_eq, h.speakers, h.names, h.forms, h.others⟩

/-- Where each dump decodes or fails, the store is the merge of those that decode, and the failed
files are the ones that fail. Without these and the skipped ones the store is the same but for
them. -/
theorem merges_of_files (tree : FileTree) (paths : List Text)
    (h : ∀ path ∈ paths, ¬ EndsLoad tree path) :
    ∃ store, (ofFiles tree paths).2 = .ok store
      ∧ Merges (decodedIn tree paths) store
      ∧ store.failed = paths.filter (isSkipped tree)
      ∧ (ofFiles tree (paths.filter (isDecoded tree))).2 = .ok { store with failed := [] } := by
  have hkept : ∀ path ∈ paths.filter (isDecoded tree), ¬ EndsLoad tree path :=
    fun path hpath => h path (List.mem_filter.1 hpath).1
  have hdumps : decodedIn tree (paths.filter (isDecoded tree)) = decodedIn tree paths := by
    rw [decodedIn, List.filterMap_filter]
    refine List.filterMap_congr fun path _ => ?_
    unfold isDecoded
    rcases decoded? tree path with _ | dump <;> rfl
  have hnone : (paths.filter (isDecoded tree)).filter (isSkipped tree) = [] := by
    refine List.filter_eq_nil_iff.2 fun path hpath hskipped => ?_
    have hdecoded := (List.mem_filter.1 hpath).2
    rw [isDecoded, decoded?_of_isSkipped hskipped] at hdecoded
    cases hdecoded
  rw [ofFiles_eq h, ofFiles_eq hkept, hdumps, hnone]
  exact ⟨_, rfl, (merges_decodedIn tree paths).failed _, rfl, rfl⟩

/-- Two dumps with one key, one of speaker names, one of species, one of forms, one that is skipped
and one without a label list; the last path is of no file. -/
def mixedTree : FileTree := ⟨[], .ofList
  [(["intro.asset".toList], .file (Utf8.encode
      "labelDataArray:\nlabelName: A\nwordDataArray:\n- str: plain\n")),
   (["english_intro.asset".toList], .file (Utf8.encode
      "labelDataArray:\nlabelName: A\nwordDataArray:\n- str: english\n")),
   (["speakers_name.asset".toList], .file (Utf8.encode
      "labelName: Rival\nwordDataArray:\n- str: Barry\n  eventID: 0\n")),
   (["monsname.asset".toList], .file (Utf8.encode "arrayIndex: 25\nstr: Pikachu\n")),
   (["zkn_form.asset".toList], .file (Utf8.encode "labelName: ZKN_FORM_25_1\nstr: Cap\n")),
   (["uidatabase.asset".toList], .file (Utf8.encode "arrayIndex: 1\nstr: x\n")),
   (["broken.asset".toList], .file (Utf8.encode "m\n"))]⟩

def mixedPaths : List Text :=
  ["intro.asset", "broken.asset", "monsname.asset", "english_intro.asset", "uidatabase.asset",
    "speakers_name.asset", "zkn_form.asset", "missing.asset"]

theorem merges_of_files_mixed :
    (∀ path ∈ mixedPaths, ¬ EndsLoad mixedTree path)
      ∧ ∃ store, (ofFiles mixedTree mixedPaths).2 = .ok store
        ∧ Merges (decodedIn mixedTree mixedPaths) store
        ∧ store.failed = ["broken.asset".toList, "missing.asset".toList]
        ∧ (ofFiles mixedTree (mixedPaths.filter (isDecoded mixedTree))).2
          = .ok { store with failed := [] } := by
  have hfailed : (ofFiles mixedTree mixedPaths).2.toOption.map Store.failed
      = some ["broken.asset".toList, "missing.asset".toList] := by decide +kernel
  have hshort : ∀ path ∈ mixedPaths, ¬ EndsLoad mixedTree path := by
    rw [ofFiles_snd] at hfailed
    refine (addFiles_spec mixedTree {} mixedPaths).1.1 ?_
    rcases hadd : (addFiles mixedTree {} mixedPaths).2 with e | store <;> rw [hadd] at hfailed
    · cases hfailed
    · exact ⟨store, rfl⟩
  obtain ⟨store, hload, hmerges, -, hkept⟩ := merges_of_files mixedTree mixedPaths hshort
  rw [hload] at hfailed
  exact ⟨hshort, store, hload, hmerges, Option.some.inj hfailed, hkept⟩

end Store

end Dialogue
