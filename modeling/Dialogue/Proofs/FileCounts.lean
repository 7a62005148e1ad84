import Dialogue.Proofs.Aliases
import Mathlib.Algebra.BigOperators.Group.Finset.Basic
import Mathlib.Algebra.BigOperators.Group.Finset.Piecewise
import Mathlib.Algebra.Order.BigOperators.Group.Finset

/-!
# How many files a store counts

Under each key a store keeps the last file that has it (`Keeps`), and its size is the number of
keys. A file has at most two of them, so the size is the number of files that are still found under
some key, and once more of those that are still found under both of theirs (`size_of_files`). A file
with a prefix in its stem is counted twice where no later one takes a key from it
(`not_size_of_prefixed`).
-/

namespace Dialogue

theorem Dump.nodup_aliases (path : Text) : (aliases path).Nodup := by
  unfold aliases
  simp only [Bool.or_eq_true, beq_iff_eq]
  split
  · exact List.nodup_singleton _
  · rename_i h
    simpa using Ne.symm (not_or.1 h).1

theorem Dump.length_aliases_le (path : Text) : (aliases path).length ≤ 2 := by
  unfold aliases
  simp only []
  split <;> simp

namespace Store

variable {tree : FileTree} {paths : List Text}

/-- The last file of a list that has a key. -/
def keeper? (paths : List Text) (key : Text) : Option Text :=
  paths.reverse.find? fun path => (Dump.aliases path).contains key

/-- The keys under which a file of a list is still found. -/
def held (paths : List Text) (path : Text) : List Text :=
  (Dump.aliases path).filter fun key => keeper? paths key == some path

/-- The files of a list that are still found under a key. -/
def kept (paths : List Text) : Finset Text := paths.toFinset.filter fun path => held paths path ≠ []

/-- The files of a list that are still found under two keys. -/
def keptTwice (paths : List Text) : Finset Text :=
  (kept paths).filter fun path => (held paths path).length = 2

section Keepers

theorem keeper?_concat (path key : Text) : keeper? (paths ++ [path]) key
    = if key ∈ Dump.aliases path then some path else keeper? paths key := by
  rw [keeper?, List.reverse_append, List.reverse_singleton, List.singleton_append, List.find?_cons]
  by_cases h : key ∈ Dump.aliases path
  · simp [h]
  · simp [h, keeper?]

theorem mem_of_keeper? {path key : Text} (h : keeper? paths key = some path) :
    path ∈ paths ∧ key ∈ Dump.aliases path :=
  ⟨List.mem_reverse.1 (List.mem_of_find?_eq_some h), by simpa using List.find?_some h⟩

theorem mem_held_iff {path key : Text} : key ∈ held paths path ↔ keeper? paths key = some path := by
  rw [held, List.mem_filter, beq_iff_eq]
  exact ⟨fun h => h.2, fun h => ⟨(mem_of_keeper? h).2, h⟩⟩

theorem nodup_held (paths : List Text) (path : Text) : (held paths path).Nodup :=
  (Dump.nodup_aliases path).filter _

theorem length_held_le (paths : List Text) (path : Text) : (held paths path).length ≤ 2 :=
  (List.length_filter_le _ _).trans (Dump.length_aliases_le path)

theorem mem_kept_of_mem_held {path key : Text} (h : key ∈ held paths path) : path ∈ kept paths :=
  Finset.mem_filter.2 ⟨List.mem_toFinset.2 (mem_of_keeper? (mem_held_iff.1 h)).1,
    List.ne_nil_of_mem h⟩

/-- Keys that each have a keeper are as many as the keepers have. -/
theorem card_keys_eq_sum {keys : Finset Text} (h : ∀ key, key ∈ keys ↔ (keeper? paths key).isSome) :
    keys.card = ∑ path ∈ kept paths, (held paths path).length := by
  have hunion : keys = (kept paths).biUnion fun path => (held paths path).toFinset := by
    ext key
    simp only [h, Option.isSome_iff_exists, Finset.mem_biUnion, List.mem_toFinset, ← mem_held_iff]
    exact ⟨fun ⟨path, hkey⟩ => ⟨path, mem_kept_of_mem_held hkey, hkey⟩, fun ⟨path, _, hkey⟩ =>
      ⟨path, hkey⟩⟩
  have hapart : ∀ path ∈ kept paths, ∀ other ∈ kept paths, path ≠ other →
      Disjoint (held paths path).toFinset (held paths other).toFinset := by
    intro path _ other _ hne
    refine Finset.disjoint_left.2 fun key hkey hother => hne ?_
    rw [List.mem_toFinset, mem_held_iff] at hkey hother
    exact Option.some.inj (hkey.symm.trans hother)
  rw [hunion, Finset.card_biUnion hapart]
  exact Finset.sum_congr rfl fun path _ => List.toFinset_card_of_nodup (nodup_held paths path)

/-- Each file that is kept holds one key or two. -/
theorem sum_length_held (paths : List Text) :
    ∑ path ∈ kept paths, (held paths path).length = (kept paths).card + (keptTwice paths).card := by
  rw [keptTwice, Finset.card_filter, Finset.card_eq_sum_ones, ← Finset.sum_add_distrib]
  refine Finset.sum_congr rfl fun path hpath => ?_
  have hpos := List.length_pos_iff.2 (Finset.mem_filter.1 hpath).2
  have hle := length_held_le paths path
  split <;> omega

end Keepers

section Messages

/-- The table has the last of the files under each of their keys, and no key twice. -/
structure Keeps (tree : FileTree) (paths : List Text) (table : Table Text Dump.Messages) :
    Prop where
  distinct : Table.Distinct table.entries
  get?_eq : ∀ key, table.get? key = (keeper? paths key).bind (messagesAt? tree)

theorem Keeps.empty : Keeps tree [] ∅ := ⟨List.Pairwise.nil, fun _ => rfl⟩

theorem distinct_foldl_insert (found : Dump.Messages) : ∀ (keys : List Text)
    {table : Table Text Dump.Messages}, Table.Distinct table.entries →
      Table.Distinct (keys.foldl (fun table key => table.insert key found) table).entries
  | [], _, h => h
  | key :: keys, _, h => distinct_foldl_insert found keys (Table.distinct_insertInto h key found)

/-- One more file takes its keys. -/
theorem Keeps.insert {table : Table Text Dump.Messages} (h : Keeps tree paths table) {path : Text}
    {found : Dump.Messages} (hfound : messagesAt? tree path = some found) :
    Keeps tree (paths ++ [path])
      ((Dump.aliases path).foldl (fun table key => table.insert key found) table) := by
  refine ⟨distinct_foldl_insert found _ h.distinct, fun key => ?_⟩
  rw [get?_foldl_insert, keeper?_concat]
  split
  · rw [Option.bind_some, hfound]
  · exact h.get?_eq key

theorem Keeps.put {store : Store} (h : Keeps tree paths store.messages) {path : Text}
    {dump : Dump.Decoded} (hdump : decoded? tree path = some dump)
    (hmessages : (messagesAt? tree path).isSome) :
    Keeps tree (paths ++ [path]) (store.put dump).messages := by
  obtain ⟨found, hfound⟩ := Option.isSome_iff_exists.1 hmessages
  obtain ⟨hpath, -⟩ := decoded?_eq_some.1 hdump
  have hcontent : dump.content = .messages found := by
    rw [messagesAt?, hdump, Option.bind_some] at hfound
    rcases dump with ⟨_, kind, content | content⟩ <;> cases kind <;> cases hfound <;> rfl
  have hinsert := h.insert hfound
  rw [Store.put, hcontent, hpath]
  exact hinsert

theorem Keeps.foldl_put : ∀ {more paths : List Text} {store : Store},
    Keeps tree paths store.messages → (∀ path ∈ more, (messagesAt? tree path).isSome) →
      Keeps tree (paths ++ more) ((decodedIn tree more).foldl Store.put store).messages
  | [], paths, store, h, _ => by simpa [decodedIn] using h
  | path :: more, paths, store, h, hmore => by
    obtain ⟨hpath, hrest⟩ := List.forall_mem_cons.1 hmore
    obtain ⟨found, hfound⟩ := Option.isSome_iff_exists.1 hpath
    obtain ⟨dump, hdump, -⟩ := Option.bind_eq_some_iff.1 hfound
    have hall := Keeps.foldl_put (h.put hdump hpath) hrest
    rw [decodedIn, List.filterMap_cons_some hdump, List.foldl_cons]
    rwa [List.append_assoc] at hall

theorem Keeps.size_eq {table : Table Text Dump.Messages} (h : Keeps tree paths table)
    (hmessages : ∀ path ∈ paths, (messagesAt? tree path).isSome) :
    table.size = (kept paths).card + (keptTwice paths).card := by
  have hkeys : ∀ key, key ∈ table.keys.toFinset ↔ (keeper? paths key).isSome := by
    intro key
    rw [List.mem_toFinset, ← Table.isSome_get?_iff, h.get?_eq]
    rcases hkeeper : keeper? paths key with _ | path
    · rfl
    · simpa using hmessages path (mem_of_keeper? hkeeper).1
  have hnodup : table.keys.Nodup := h.distinct.nodup
  rw [← sum_length_held, ← card_keys_eq_sum hkeys, List.toFinset_card_of_nodup hnodup]
  exact (List.length_map _).symm

theorem exists_keeps (tree : FileTree)
    (hmessages : ∀ path ∈ paths, (messagesAt? tree path).isSome) :
    ∃ store, (ofFiles tree paths).2 = .ok store ∧ Keeps tree paths store.messages := by
  have hkeeps : Keeps tree ([] ++ paths) ((decodedIn tree paths).foldl put {}).messages :=
    Keeps.foldl_put Keeps.empty hmessages
  exact ⟨_, ofFiles_eq fun path hpath => not_endsLoad_of_messagesAt? (hmessages path hpath),
    hkeeps⟩

end Messages

/-- A store of message files has the last file of a key under it. Its size is the number of files
that are still found, and once more of those that are found under two keys, so it is the number of
files exactly if there is none of these. -/
theorem size_of_files (tree : FileTree)
    (hmessages : ∀ path ∈ paths, (messagesAt? tree path).isSome) :
    ∃ store, (ofFiles tree paths).2 = .ok store
      ∧ (∀ key, store.messages.get? key = (keeper? paths key).bind (messagesAt? tree))
      ∧ store.size = (kept paths).card + (keptTwice paths).card
      ∧ (store.size = (kept paths).card ↔ ∀ path ∈ paths, (held paths path).length ≤ 1) := by
  obtain ⟨store, hload, hkeeps⟩ := exists_keeps tree hmessages
  have hsize : store.size = (kept paths).card + (keptTwice paths).card := hkeeps.size_eq hmessages
  have hnone : (keptTwice paths).card = 0 ↔ ∀ path ∈ paths, (held paths path).length ≤ 1 := by
    rw [Finset.card_eq_zero, keptTwice, kept, Finset.filter_filter, Finset.filter_eq_empty_iff]
    refine forall_congr' fun path => imp_congr List.mem_toFinset ?_
    have hle := length_held_le paths path
    rw [← List.length_pos_iff]
    omega
  refine ⟨store, hload, hkeeps.get?_eq, hsize, ?_⟩
  rw [← hnone, hsize]
  omega

/-- Of two dumps the second takes the stem of the first, and is found under its own one too. -/
theorem size_of_files_hidden :
    (∀ path ∈ [hiddenPath, hidingPath], (messagesAt? hidingTree path).isSome)
      ∧ ∃ store, (ofFiles hidingTree [hiddenPath, hidingPath]).2 = .ok store ∧ store.size = 2
        ∧ (kept [hiddenPath, hidingPath]).card = 1 := by
  have hmessages : ∀ path ∈ [hiddenPath, hidingPath], (messagesAt? hidingTree path).isSome := by
    decide +kernel
  have hkept : (kept [hiddenPath, hidingPath]).card = 1 := by decide +kernel
  have htwice : (keptTwice [hiddenPath, hidingPath]).card = 1 := by decide +kernel
  obtain ⟨store, hload, -, hsize, -⟩ := size_of_files hidingTree hmessages
  exact ⟨hmessages, store, hload, by rw [hsize, hkept, htwice], hkept⟩

/-- The size of a store need not be the number of files that are still found in it. -/
theorem not_size_of_prefixed :
    ¬ ∀ (tree : FileTree) (paths : List Text), (∀ path ∈ paths, (messagesAt? tree path).isSome) →
      ∀ store, (ofFiles tree paths).2 = .ok store → store.size = (kept paths).card := by
  intro h
  have hmessages : ∀ path ∈ [hidingPath], (messagesAt? hidingTree path).isSome := by decide +kernel
  have htwo : (ofFiles hidingTree [hidingPath]).2.toOption.map size = some 2 := by decide +kernel
  have hone : (kept [hidingPath]).card = 1 := by decide +kernel
  rcases hload : (ofFiles hidingTree [hidingPath]).2 with e | store
  · rw [hload] at htwo
    cases htwo
  · rw [hload] at htwo
    have hsize := h hidingTree [hidingPath] hmessages store hload
    rw [hone] at hsize
    exact absurd (hsize.symm.trans (Option.some.inj htwo)) (by decide)

end Store

end Dialogue
