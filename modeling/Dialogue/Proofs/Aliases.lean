import Dialogue.Proofs.Merging

/-!
# Files that hide others

A message file is kept under its stem and under what is left of that without prefixes, and the last
file that has a key is the one that is found under it. So among files with different stems one is
found by its own stem unless a later one is left with that stem when its prefixes are taken off
(`labels_of_stem`), and it may then be hidden (`not_reaches_of_alias`).
-/

namespace Dialogue.Store

variable {tree : FileTree}

/-- The messages that the dump at a path is decoded to by itself. -/
def messagesAt? (tree : FileTree) (path : Text) : Option Dump.Messages :=
  (decoded? tree path).bind Dump.Decoded.messages?

/-- Another dump is left with the stem of this one when its prefixes are taken off. -/
def hides (path other : Text) : Bool :=
  !(Dump.lowerStem path).isEmpty && Dump.shortStem (Dump.lowerStem other) == Dump.lowerStem path

/-- Each label of a dump shows the dump's own message, in the file of its stem. -/
def Reaches (store : Store) (path : Text) (own : Dump.Messages) : Prop :=
  ∀ label message, own.get? (Text.lower label) = some message →
    store.message? (Path.stem path) label = some message

/-- The labels of a dump are all there are of its keys. -/
theorem reaches_iff {store : Store} {path : Text} {own shown : Dump.Messages}
    (hown : Dump.Keyed own) (hlabels : store.labels (Path.stem path) = shown) :
    Reaches store path own
      ↔ ∀ key message, own.get? key = some message → shown.get? key = some message := by
  unfold Reaches message?
  rw [hlabels]
  constructor
  · intro h key message hget
    obtain ⟨label, rfl⟩ := hown.lowered key (Table.mem_keys_of_get? hget)
    exact h label message hget
  · exact fun h label message hget => h _ _ hget

theorem findSome?_guard {α β : Type} {p : α → Bool} {f : α → Option β} : ∀ {items : List α},
    (∀ a ∈ items, (f a).isSome) →
      items.findSome? (fun a => if p a then f a else none) = (items.find? p).bind f
  | [], _ => rfl
  | a :: items, h => by
    obtain ⟨ha, hitems⟩ := List.forall_mem_cons.1 h
    obtain ⟨b, hb⟩ := Option.isSome_iff_exists.1 ha
    rw [List.findSome?_cons, List.find?_cons, findSome?_guard hitems]
    by_cases hp : p a <;> simp [hp, hb]

theorem not_endsLoad_of_messagesAt? {path : Text} (h : (messagesAt? tree path).isSome = true) :
    ¬ EndsLoad tree path := by
  obtain ⟨found, hfound⟩ := Option.isSome_iff_exists.1 h
  obtain ⟨dump, hdecoded, -⟩ := Option.bind_eq_some_iff.1 hfound
  obtain ⟨-, hkind, hdecode⟩ := decoded?_eq_some.1 hdecoded
  rintro (⟨e, hdump⟩ | ⟨e, hdump⟩) <;> simp [dumpAt, hkind, hdecode] at hdump

theorem keyed_of_messagesAt? {path : Text} {own : Dump.Messages}
    (h : messagesAt? tree path = some own) : Dump.Keyed own := by
  obtain ⟨⟨_, kind, content⟩, hdecoded, hown⟩ := Option.bind_eq_some_iff.1 h
  have hcontent := (fits_of_decoded? hdecoded).content
  rcases content with found | found
  · have hfound : found = own := by
      rcases hcontent.1 with rfl | rfl <;> exact Option.some.inj hown
    exact hfound ▸ hcontent.2
  · cases kind <;> cases hown

theorem hides_iff {path other : Text} : hides path other = true
    ↔ Dump.lowerStem path ≠ [] ∧ Dump.shortStem (Dump.lowerStem other) = Dump.lowerStem path := by
  simp [hides]

/-- What a dump with another stem has under the stem of a path. -/
theorem messagesUnder?_stem {path other : Text} (hne : Dump.lowerStem path ≠ Dump.lowerStem other) :
    (decoded? tree other).bind (Dump.Decoded.messagesUnder? (Dump.lowerStem path))
      = if hides path other then messagesAt? tree other else none := by
  rcases hdecoded : decoded? tree other with _ | dump
  · simp [messagesAt?, hdecoded]
  · have hkey : (Dump.aliases dump.path).contains (Dump.lowerStem path) = hides path other := by
      rw [Bool.eq_iff_iff, List.contains_iff_mem, (decoded?_eq_some.1 hdecoded).1,
        Dump.mem_aliases_iff, hides_iff, or_iff_right hne]
    rw [Option.bind_some, Dump.Decoded.messagesUnder?, messagesAt?, hdecoded, Option.bind_some,
      hkey]

section Stem

variable {before after : List Text} {path : Text} {own : Dump.Messages}

/-- Among files with different stems a stem shows its own file, or the last one behind it that is
left with this stem. -/
theorem labels_eq_of_merges {store : Store}
    (hmessages : ∀ other ∈ after, (messagesAt? tree other).isSome)
    (hstems : ∀ other ∈ after, Dump.lowerStem path ≠ Dump.lowerStem other)
    (hown : messagesAt? tree path = some own)
    (h : Merges (decodedIn tree (before ++ path :: after)) store) :
    store.labels (Path.stem path)
      = ((after.reverse.find? (hides path)).bind (messagesAt? tree)).getD own := by
  obtain ⟨dump, hdecoded, hdump⟩ := Option.bind_eq_some_iff.1 hown
  have hself : Dump.Decoded.messagesUnder? (Dump.lowerStem path) dump = some own := by
    rw [Dump.Decoded.messagesUnder?, (decoded?_eq_some.1 hdecoded).1,
      if_pos (List.contains_iff_mem.2 (Dump.mem_aliases_iff.2 (.inl rfl))), hdump]
  have hbehind : (decodedIn tree after).reverse.findSome?
        (Dump.Decoded.messagesUnder? (Dump.lowerStem path))
      = (after.reverse.find? (hides path)).bind (messagesAt? tree) := by
    have hmem : ∀ other ∈ after.reverse, other ∈ after := fun _ => List.mem_reverse.1
    rw [decodedIn, ← List.filterMap_reverse, ← List.head?_filterMap, List.filterMap_filterMap,
      List.filterMap_congr fun other hother => messagesUnder?_stem (hstems other (hmem _ hother)),
      List.head?_filterMap, findSome?_guard fun other hother => hmessages other (hmem _ hother)]
  have hsplit : decodedIn tree (before ++ path :: after)
      = decodedIn tree before ++ dump :: decodedIn tree after := by
    rw [decodedIn, List.filterMap_append, List.filterMap_cons_some hdecoded]
    rfl
  rw [h.labels_eq, hsplit, List.reverse_append, List.reverse_cons, List.append_assoc,
    List.findSome?_append, show Text.lower (Path.stem path) = Dump.lowerStem path from rfl, hbehind,
    List.singleton_append, List.findSome?_cons, hself]
  rcases (after.reverse.find? (hides path)).bind (messagesAt? tree) with _ | found <;> rfl

/-- Among files with different stems a file is found by its own one, unless another behind it is
left with that stem when its prefixes are taken off; then the last such file is found there. So its
labels show its own messages exactly if that file has the same ones. -/
theorem labels_of_stem (tree : FileTree)
    (hmessages : ∀ other ∈ before ++ path :: after, (messagesAt? tree other).isSome)
    (hstems : ((before ++ path :: after).map Dump.lowerStem).Nodup)
    (hown : messagesAt? tree path = some own) :
    ∃ store, (ofFiles tree (before ++ path :: after)).2 = .ok store
      ∧ store.labels (Path.stem path)
        = ((after.reverse.find? (hides path)).bind (messagesAt? tree)).getD own
      ∧ (Reaches store path own ↔ ∀ other found, after.reverse.find? (hides path) = some other →
        messagesAt? tree other = some found → ∀ key message, own.get? key = some message →
          found.get? key = some message) := by
  have hload := ofFiles_eq fun other hother =>
    not_endsLoad_of_messagesAt? (hmessages other hother)
  have hafter : ∀ other ∈ after, (messagesAt? tree other).isSome := fun other hother =>
    hmessages other (by simp [hother])
  have hne : ∀ other ∈ after, Dump.lowerStem path ≠ Dump.lowerStem other := by
    intro other hother heq
    rw [List.map_append, List.map_cons] at hstems
    exact (List.nodup_cons.1 hstems.of_append_right).1 (heq ▸ List.mem_map_of_mem hother)
  refine ⟨_, hload, ?_⟩
  have hlabels := labels_eq_of_merges hafter hne hown
    ((merges_decodedIn tree (before ++ path :: after)).failed
      ((before ++ path :: after).filter (isSkipped tree)))
  refine ⟨hlabels, ?_⟩
  rw [reaches_iff (keyed_of_messagesAt? hown) hlabels]
  rcases hfind : after.reverse.find? (hides path) with _ | other
  · simp
  · have hother := hafter other (List.mem_reverse.1 (List.mem_of_find?_eq_some hfind))
    obtain ⟨found, hfound⟩ := Option.isSome_iff_exists.1 hother
    rw [Option.bind_some, hfound, Option.getD_some]
    refine ⟨fun h _ _ hlast hat => ?_, fun h => h other found rfl hfound⟩
    cases hlast
    cases hfound.symm.trans hat
    exact h

end Stem

/-- Two dumps with one label, of which the second is left with the stem of the first. -/
def hidingTree : FileTree := ⟨[], .ofList
  [(["a.asset".toList], .file (Utf8.encode
      "labelDataArray:\nlabelName: L\nwordDataArray:\n- str: x")),
   (["ss_a.asset".toList], .file (Utf8.encode
      "labelDataArray:\nlabelName: L\nwordDataArray:\n- str: y"))]⟩

def hiddenPath : Text := "a.asset"

def hidingPath : Text := "ss_a.asset"

theorem labels_of_stem_hidden :
    (∀ other ∈ [] ++ hiddenPath :: [hidingPath], (messagesAt? hidingTree other).isSome)
      ∧ (([] ++ hiddenPath :: [hidingPath]).map Dump.lowerStem).Nodup
      ∧ ∃ own found store, messagesAt? hidingTree hiddenPath = some own
        ∧ messagesAt? hidingTree hidingPath = some found
        ∧ (ofFiles hidingTree ([] ++ hiddenPath :: [hidingPath])).2 = .ok store
        ∧ store.labels ['a'] = found := by
  have hmessages : ∀ other ∈ [] ++ hiddenPath :: [hidingPath],
      (messagesAt? hidingTree other).isSome := by decide +kernel
  have hstems : (([] ++ hiddenPath :: [hidingPath]).map Dump.lowerStem).Nodup := by decide +kernel
  have hfind : [hidingPath].reverse.find? (hides hiddenPath) = some hidingPath := by decide +kernel
  obtain ⟨own, hown⟩ := Option.isSome_iff_exists.1 (hmessages hiddenPath (by simp))
  obtain ⟨found, hfound⟩ := Option.isSome_iff_exists.1 (hmessages hidingPath (by simp))
  obtain ⟨store, hload, hlabels, -⟩ := labels_of_stem hidingTree hmessages hstems hown
  rw [hfind, Option.bind_some, hfound, Option.getD_some] at hlabels
  exact ⟨hmessages, hstems, own, found, store, hown, hfound, hload, hlabels⟩

/-- Files with different stems need not all be found by their own ones. -/
theorem not_reaches_of_alias :
    ¬ ∀ (tree : FileTree) (paths : List Text), (∀ path ∈ paths, (messagesAt? tree path).isSome) →
      (paths.map Dump.lowerStem).Nodup → ∀ store, (ofFiles tree paths).2 = .ok store →
        ∀ path ∈ paths, ∀ own, messagesAt? tree path = some own → Reaches store path own := by
  intro h
  have hshown : ((ofFiles hidingTree [hiddenPath, hidingPath]).2.toOption.bind fun store =>
      store.message? ['a'] ['l']).map Message.text = some "y\x7bn\x7d".toList := by decide +kernel
  have htext : ((messagesAt? hidingTree hiddenPath).bind fun own => own.get? ['l']).map Message.text
      = some "x\x7bn\x7d".toList := by decide +kernel
  have hfound : (messagesAt? hidingTree hidingPath).isSome := by decide +kernel
  rcases hown : messagesAt? hidingTree hiddenPath with _ | own <;> rw [hown] at htext
  · cases htext
  rcases hload : ofFiles hidingTree [hiddenPath, hidingPath] with ⟨log, e | store⟩ <;>
    rw [hload] at hshown
  · cases hshown
  have hmessages : ∀ path ∈ [hiddenPath, hidingPath], (messagesAt? hidingTree path).isSome := by
    simp [hown, hfound]
  obtain ⟨message, hmessage, htext⟩ := Option.map_eq_some_iff.1 htext
  have hreaches := h hidingTree [hiddenPath, hidingPath] hmessages (by decide +kernel) store
    (by rw [hload]) hiddenPath (by simp) own hown ['l'] message hmessage
  have hstem : Path.stem hiddenPath = ['a'] := by decide +kernel
  rw [hstem] at hreaches
  simp only [Except.toOption, Option.bind_some, hreaches, Option.map_some, htext] at hshown
  exact absurd hshown (by decide)

end Dialogue.Store
