import Dialogue.FileTree.Glob
import Dialogue.Proofs.TemporaryFiles
import Mathlib.Data.List.Nodup

/-!
# What stands below a folder

In a tree of files everything stands once, in folders all the way up, under names that a path can
hold (`IsTree`). So the path of a folder with such names behind it leads to the place of these names
below the folder, unless it is too long (`folderPlace?_join_iff`), and the folders below it are
found by their places (`mem_below_iff`), each of them once (`nodup_below`).
-/

namespace Dialogue

namespace Table

variable {κ ν : Type} [BEq κ] [LawfulBEq κ]

/-- Where the keys differ, an entry is what its key gives. -/
theorem get?_eq_some_iff {table : Table κ ν} (h : table.keys.Nodup) {key : κ} {value : ν} :
    table.get? key = some value ↔ (key, value) ∈ table.entries := by
  refine ⟨mem_of_get?, fun hmem => ?_⟩
  have hsome := (isSome_get?_iff table key).2 (List.mem_map_of_mem hmem)
  obtain ⟨found, hfound⟩ := Option.isSome_iff_exists.1 hsome
  have hsame := List.inj_on_of_nodup_map h (mem_of_get? hfound) hmem rfl
  rw [hfound, (Prod.mk.inj hsame).2]

end Table

namespace Text

/-- Parts without the separator are found again in what they are joined to. -/
theorem splitAt_join {separator : Char} : ∀ {parts : List Text}, parts ≠ [] →
    (∀ part ∈ parts, separator ∉ part) → splitAt separator (join [separator] parts) = parts
  | [part], _, h => splitAt_of_not_mem (h part (List.mem_singleton_self part))
  | part :: next :: rest, _, h => by
    obtain ⟨hpart, hrest⟩ := List.forall_mem_cons.1 h
    have hjoin : join [separator] (part :: next :: rest)
        = part ++ separator :: join [separator] (next :: rest) := by
      rw [join, List.append_assoc, List.singleton_append]
    rw [hjoin, splitAt_append, splitAt_of_not_mem hpart, splitAt_join (List.cons_ne_nil _ _) hrest]
    rfl

theorem join_concat (separator : Text) : ∀ {parts : List Text}, parts ≠ [] → ∀ last : Text,
    join separator (parts ++ [last]) = join separator parts ++ separator ++ last
  | [part], _, last => rfl
  | part :: next :: rest, _, last => by
    have ih := join_concat separator (List.cons_ne_nil next rest) last
    simp only [List.cons_append] at ih
    simp only [List.cons_append, join, ih, List.append_assoc]

theorem mem_of_mem_join {separator : Text} {c : Char} : ∀ {parts : List Text},
    c ∈ join separator parts → c ∈ separator ∨ ∃ part ∈ parts, c ∈ part
  | [part], h => .inr ⟨part, List.mem_singleton_self part, h⟩
  | part :: next :: rest, h => by
    rw [join, List.append_assoc, List.mem_append, List.mem_append] at h
    rcases h with hpart | hsep | hrest
    · exact .inr ⟨part, List.mem_cons_self, hpart⟩
    · exact .inl hsep
    · rcases mem_of_mem_join hrest with hsep | ⟨other, hother, hc⟩
      · exact .inl hsep
      · exact .inr ⟨other, List.mem_cons_of_mem part hother, hc⟩

end Text

namespace FileTree

variable {tree : FileTree} {place goal : Place} {names : List Text} {folder name : Text}

/-- A name that something in a tree can have. -/
structure IsEntryName (name : Text) : Prop extends Path.IsName name where
  no_null : '\x00' ∉ name
  short : isLongerThan maxName name = false

instance (name : Text) : Decidable (IsEntryName name) :=
  decidable_of_iff ((name ≠ [] ∧ name ≠ ['.'] ∧ name ≠ ['.', '.'] ∧ '/' ∉ name)
      ∧ '\x00' ∉ name ∧ isLongerThan maxName name = false)
    ⟨fun ⟨⟨h₁, h₂, h₃, h₄⟩, h₅, h₆⟩ => ⟨⟨h₁, h₂, h₃, h₄⟩, h₅, h₆⟩,
      fun ⟨⟨h₁, h₂, h₃, h₄⟩, h₅, h₆⟩ => ⟨⟨h₁, h₂, h₃, h₄⟩, h₅, h₆⟩⟩

/-- A tree in which everything stands once, under such a name and in a folder. -/
structure IsTree (tree : FileTree) : Prop where
  nodup : tree.entries.keys.Nodup
  named : ∀ place ∈ tree.entries.keys, place ≠ [] ∧ ∀ name ∈ place, IsEntryName name
  inFolder : ∀ place ∈ tree.entries.keys, tree.entryAt? place.dropLast = some .folder
  home : tree.entryAt? tree.home = some .folder

instance (tree : FileTree) : Decidable (IsTree tree) :=
  decidable_of_iff (tree.entries.keys.Nodup
      ∧ (∀ place ∈ tree.entries.keys, place ≠ [] ∧ ∀ name ∈ place, IsEntryName name)
      ∧ (∀ place ∈ tree.entries.keys, tree.entryAt? place.dropLast = some .folder)
      ∧ tree.entryAt? tree.home = some .folder)
    ⟨fun ⟨h₁, h₂, h₃, h₄⟩ => ⟨h₁, h₂, h₃, h₄⟩, fun ⟨h₁, h₂, h₃, h₄⟩ => ⟨h₁, h₂, h₃, h₄⟩⟩

/-- The place with one more name. -/
theorem nameIn_eq_some_iff {found : Place} :
    (match found.getLast? with
      | some name => if found.dropLast = place then some name else none
      | none => none) = some name ↔ found = place ++ [name] := by
  constructor
  · intro hname
    split at hname
    · rename_i last hlast
      obtain ⟨front, rfl⟩ := List.getLast?_eq_some_iff.1 hlast
      rw [List.dropLast_concat] at hname
      split_ifs at hname with hplace
      obtain rfl : last = name := Option.some.inj hname
      rw [hplace]
    · cases hname
  · rintro rfl
    simp

theorem mem_names_iff : name ∈ tree.names place ↔ place ++ [name] ∈ tree.entries.keys := by
  rw [names, List.mem_filterMap]
  constructor
  · rintro ⟨found, hfound, hname⟩
    exact nameIn_eq_some_iff.1 hname ▸ hfound
  · exact fun hmem => ⟨place ++ [name], hmem, nameIn_eq_some_iff.2 rfl⟩

section IsTree

variable (h : IsTree tree)
include h

theorem mem_keys_iff : place ∈ tree.entries.keys ↔ place ≠ [] ∧ tree.entryAt? place ≠ none := by
  rcases place with _ | ⟨name, place⟩
  · exact iff_of_false (fun hmem => (h.named [] hmem).1 rfl) (by simp)
  · rw [← Table.isSome_get?_iff]
    simp [entryAt?, Option.isSome_iff_ne_none]

theorem mem_entries_iff {entry : Entry} :
    (place, entry) ∈ tree.entries.entries ↔ place ≠ [] ∧ tree.entryAt? place = some entry := by
  rw [← Table.get?_eq_some_iff h.nodup]
  rcases place with _ | ⟨name, place⟩
  · refine iff_of_false (fun hget => ?_) (by simp)
    have hmem := (Table.get?_eq_some_iff h.nodup).1 hget
    exact (h.named [] (List.mem_map_of_mem hmem)).1 rfl
  · simp [entryAt?]

theorem isEntryName_of_entryAt? (hplace : tree.entryAt? place ≠ none) :
    ∀ name ∈ place, IsEntryName name := by
  rcases place with _ | ⟨first, place⟩
  · simp
  · exact (h.named _ ((mem_keys_iff h).2 ⟨List.cons_ne_nil _ _, hplace⟩)).2

/-- Whatever has something behind it is a folder. -/
theorem folder_of_append (hnames : names ≠ []) (hentry : tree.entryAt? (place ++ names) ≠ none) :
    tree.entryAt? place = some .folder := by
  induction names using List.reverseRecOn with
  | nil => exact absurd rfl hnames
  | append_singleton names name ih =>
    have hkey : place ++ (names ++ [name]) ∈ tree.entries.keys :=
      (mem_keys_iff h).2 ⟨by simp, hentry⟩
    have habove := h.inFolder _ hkey
    rw [← List.append_assoc, List.dropLast_concat] at habove
    rcases eq_or_ne names [] with rfl | hne
    · rwa [List.append_nil] at habove
    · exact ih hne (by simp [habove])

/-- The names below a folder lead to where they stand. -/
theorem walk_names (hentry : tree.entryAt? (place ++ names) ≠ none) :
    tree.walk place names = .ok (place ++ names) := by
  induction names generalizing place with
  | nil => rw [List.append_nil]; rfl
  | cons name names ih =>
    have hname : IsEntryName name :=
      isEntryName_of_entryAt? h hentry name (List.mem_append_right place List.mem_cons_self)
    rw [List.append_cons] at hentry ⊢
    rw [walk_eq_ok_iff, enter_of_isName hname.toIsName]
    refine ⟨folder_of_append h (List.cons_ne_nil name names) ?_, hname.short, ih hentry⟩
    rwa [List.append_cons]

end IsTree

theorem eq_append_of_walk : ∀ {names : List Text} {place : Place},
    (∀ name ∈ names, Path.IsName name) → tree.walk place names = .ok goal → goal = place ++ names
  | [], place, _, h => by rw [List.append_nil]; exact (Except.ok.inj h).symm
  | name :: names, place, hnames, h => by
    obtain ⟨hname, hrest⟩ := List.forall_mem_cons.1 hnames
    obtain ⟨-, -, hwalk⟩ := walk_eq_ok_iff.1 h
    rw [enter_of_isName hname] at hwalk
    rw [List.append_cons, eq_append_of_walk hrest hwalk]

theorem isLongerThan_append {limit : Nat} {front rest : Text}
    (h : isLongerThan limit (front ++ rest) = false) : isLongerThan limit front = false := by
  have hbytes : Utf8.encode (front ++ rest) = Utf8.encode front ++ Utf8.encode rest := by
    simp [Utf8.encode]
  simp only [isLongerThan, hbytes, List.length_append, decide_eq_false_iff_not] at h ⊢
  omega

theorem folderPlace?_eq_some_iff (hfolder : folder ≠ []) :
    tree.folderPlace? folder = some place
      ↔ tree.locate folder = .ok place ∧ tree.entryAt? place = some .folder := by
  rw [folderPlace?, if_neg (by simpa using hfolder)]
  rcases tree.locate folder with cause | found
  · simp
  · by_cases hfound : tree.entryAt? found = some .folder
    · simp only [if_pos hfound, Option.some.injEq, Except.ok.injEq]
      exact ⟨fun heq => ⟨heq, heq ▸ hfound⟩, fun heq => heq.1⟩
    · simp only [if_neg hfound, reduceCtorEq, false_iff, Except.ok.injEq]
      rintro ⟨rfl, hentry⟩
      exact hfound hentry

/-- The names of a path that goes on from a folder start with names that lead to it. -/
theorem exists_splitAt_join {sub : Text} (hfolder : folder ≠ [])
    (hsub : Path.isAbsolute sub = false) : ∃ front, Text.splitAt '/' (Path.join folder sub)
      = front ++ Text.splitAt '/' sub ∧ ∀ place, tree.entryAt? place = some .folder →
        (tree.walk (tree.root folder) front = .ok place
          ↔ tree.walk (tree.root folder) (Text.splitAt '/' folder) = .ok place) := by
  rw [Path.join_of_name folder hsub]
  by_cases hslash : folder.getLast? = some '/'
  · obtain ⟨start, rfl⟩ := List.getLast?_eq_some_iff.1 hslash
    rw [if_pos (.inr hslash)]
    refine ⟨Text.splitAt '/' start, ?_, fun place hplace => ?_⟩
    · rw [List.append_assoc, List.singleton_append, Text.splitAt_append]
    · have hsplit : Text.splitAt '/' (start ++ ['/']) = Text.splitAt '/' start ++ [[]] :=
        Text.splitAt_append '/' [] start
      rw [hsplit, walk_append]
      constructor
      · intro hwalk
        exact ⟨place, hwalk, walk_replicate hplace 1⟩
      · rintro ⟨middle, hwalk, hlast⟩
        obtain ⟨-, -, hgoal⟩ := walk_eq_ok_iff.1 hlast
        exact Except.ok.inj hgoal ▸ hwalk
  · rw [if_neg (by simp [hfolder, hslash])]
    exact ⟨Text.splitAt '/' folder, Text.splitAt_append '/' sub folder, fun _ _ => Iff.rfl⟩

/-- A path goes on from a folder. -/
theorem locate_join_iff {sub : Text} (hfolder : folder ≠ []) (hsub : Path.isAbsolute sub = false)
    (hnull : '\x00' ∉ sub) : tree.locate (Path.join folder sub) = .ok goal
      ↔ isLongerThan maxPath (Path.join folder sub) = false ∧ ∃ place,
        tree.folderPlace? folder = some place
          ∧ tree.walk place (Text.splitAt '/' sub) = .ok goal := by
  obtain ⟨front, hsplit, hfront⟩ := @exists_splitAt_join tree folder sub hfolder hsub
  obtain ⟨rest, hrest, hfree⟩ : ∃ rest, Path.join folder sub = folder ++ rest ∧ '\x00' ∉ rest := by
    rw [Path.join_of_name folder hsub]
    split_ifs
    · exact ⟨sub, rfl, hnull⟩
    · exact ⟨'/' :: sub, rfl, by simp [hnull]⟩
  have hroot : tree.root (Path.join folder sub) = tree.root folder := by
    rw [hrest, root_append hfolder rest [], List.append_nil]
  obtain ⟨first, more, hmore⟩ := List.exists_cons_of_ne_nil (Text.splitAt_ne_nil '/' sub)
  rw [locate_eq_ok_iff, hroot, hsplit, walk_append]
  constructor
  · rintro ⟨-, hpath, hshort, place, hplace, hgoal⟩
    have hentry : tree.entryAt? place = some .folder := (walk_eq_ok_iff.1 (hmore ▸ hgoal)).1
    have hlocate : tree.locate folder = .ok place := locate_eq_ok_iff.2
      ⟨hfolder, fun hmem => hpath (hrest ▸ List.mem_append_left rest hmem),
        isLongerThan_append (hrest ▸ hshort), (hfront place hentry).1 hplace⟩
    exact ⟨hshort, place, (folderPlace?_eq_some_iff hfolder).2 ⟨hlocate, hentry⟩, hgoal⟩
  · rintro ⟨hshort, place, hplace, hgoal⟩
    obtain ⟨hlocate, hentry⟩ := (folderPlace?_eq_some_iff hfolder).1 hplace
    obtain ⟨-, hpath, -, hwalk⟩ := locate_eq_ok_iff.1 hlocate
    refine ⟨by simp [hrest, hfolder], ?_, hshort, place, (hfront place hentry).2 hwalk, hgoal⟩
    simp [hrest, hpath, hfree]

/-- Names joined to one path lead to where they stand. -/
theorem walk_join_iff (h : IsTree tree) (hnames : ∀ name ∈ names, IsEntryName name)
    (hplace : tree.entryAt? place = some .folder) :
    tree.walk place (Text.splitAt '/' (Text.join ['/'] names)) = .ok goal
        ∧ tree.entryAt? goal = some .folder
      ↔ goal = place ++ names ∧ tree.entryAt? goal = some .folder := by
  refine and_congr_left fun hgoal => ?_
  rcases eq_or_ne names [] with rfl | hne
  · have hstay : tree.walk place [[]] = .ok place := walk_replicate hplace 1
    change tree.walk place [[]] = .ok goal ↔ goal = place ++ []
    rw [hstay, List.append_nil, Except.ok.injEq, eq_comm]
  · rw [Text.splitAt_join hne fun name hname => (hnames name hname).no_slash]
    constructor
    · exact eq_append_of_walk fun name hname => (hnames name hname).toIsName
    · rintro rfl
      exact walk_names h (by simp [hgoal])

section Joined

variable (hnames : ∀ name ∈ names, IsEntryName name)
include hnames

theorem isAbsolute_join : Path.isAbsolute (Text.join ['/'] names) = false := by
  rcases names with _ | ⟨name, names⟩
  · rfl
  · have hname := hnames name List.mem_cons_self
    obtain ⟨c, rest, rfl⟩ := List.exists_cons_of_ne_nil hname.ne_nil
    have hc : c ≠ '/' := fun hc => hname.no_slash (by simp [hc])
    rcases names with _ | ⟨next, names⟩ <;> simpa [Text.join, Path.isAbsolute] using hc

theorem null_not_mem_join : '\x00' ∉ Text.join ['/'] names := by
  intro hmem
  rcases Text.mem_of_mem_join hmem with hslash | ⟨name, hname, hnull⟩
  · simp at hslash
  · exact (hnames name hname).no_null hnull

theorem join_eq_nil_iff : Text.join ['/'] names = [] ↔ names = [] := by
  rcases names with _ | ⟨name, _ | ⟨next, names⟩⟩
  · exact iff_of_true rfl rfl
  · simpa [Text.join] using (hnames name List.mem_cons_self).ne_nil
  · simp [Text.join]

/-- The path of a folder with names behind it is that of the place of these names below it. -/
theorem folderPlace?_join_iff (h : IsTree tree) :
    tree.folderPlace? (Path.join folder (Text.join ['/'] names)) = some goal
      ↔ isLongerThan maxPath (Path.join folder (Text.join ['/'] names)) = false ∧ ∃ place,
        tree.folderPlace? folder = some place ∧ goal = place ++ names
          ∧ tree.entryAt? goal = some .folder := by
  have habsolute := isAbsolute_join hnames
  have hnull := null_not_mem_join hnames
  have hempty := join_eq_nil_iff hnames
  have hwalk := fun place hplace => @walk_join_iff tree place goal names h hnames hplace
  generalize Text.join ['/'] names = sub at *
  have hjoin := Path.join_of_name folder habsolute
  rcases eq_or_ne folder [] with rfl | hfolder
  · have hhome : tree.folderPlace? [] = some tree.home := rfl
    rw [if_pos (.inl rfl), List.nil_append] at hjoin
    rw [hjoin, hhome]
    simp only [Option.some.injEq, exists_eq_left']
    rcases eq_or_ne sub [] with rfl | hsub
    · obtain rfl : names = [] := hempty.1 rfl
      have hshort : isLongerThan maxPath [] = false := by decide
      rw [hhome, List.append_nil, Option.some.injEq, eq_comm]
      exact ⟨fun heq => ⟨hshort, heq, heq ▸ h.home⟩, fun heq => heq.2.1⟩
    · rw [← hwalk tree.home h.home, folderPlace?_eq_some_iff hsub, locate_eq_ok_iff, root,
        habsolute]
      simp [hsub, hnull, and_assoc]
  · have hne : Path.join folder sub ≠ [] := by
      rw [hjoin]
      split_ifs <;> simp [hfolder]
    rw [folderPlace?_eq_some_iff hne, locate_join_iff hfolder habsolute hnull, and_assoc,
      ← exists_and_right]
    refine and_congr_right fun _ => exists_congr fun place => ?_
    rw [and_assoc]
    refine and_congr_right fun hplace => ?_
    exact hwalk place ((folderPlace?_eq_some_iff hfolder).1 hplace).2

end Joined

section Below

/-- The path of the folder that holds the last one of some names is not too long for the system. -/
def IsShortTo (folder : Text) (names : List Text) : Prop :=
  isLongerThan maxPath (Path.join folder (Text.join ['/'] names.dropLast)) = false

/-- The names behind a place, where they are those of a folder below it. -/
theorem namesBehind_eq_some_iff {found : Place} {entry : Entry} :
    (let names := found.drop place.length
      if place.isPrefixOf found && !names.isEmpty && !names.any isHidden
          && (!true || entry == .folder)
          && !isLongerThan maxPath (Path.join folder (Text.join ['/'] names.dropLast)) then
        some names
      else none) = some names
      ↔ found = place ++ names ∧ names ≠ [] ∧ (∀ name ∈ names, isHidden name = false)
        ∧ entry = .folder ∧ IsShortTo folder names := by
  unfold IsShortTo
  constructor
  · intro hnames
    dsimp only at hnames
    split_ifs at hnames with hfound
    simp only [Bool.not_true, Bool.false_or, Bool.and_eq_true, List.isPrefixOf_iff_prefix,
      beq_iff_eq] at hfound
    obtain ⟨⟨⟨⟨⟨rest, rfl⟩, hne⟩, hvisible⟩, rfl⟩, hshort⟩ := hfound
    rw [List.drop_left] at hne hvisible hshort hnames
    obtain rfl := Option.some.inj hnames
    exact ⟨rfl, by simpa using hne, by simpa using hvisible, rfl, by simpa using hshort⟩
  · rintro ⟨rfl, hne, hvisible, rfl, hshort⟩
    simpa [hne, hshort] using hvisible

variable (h : IsTree tree)
include h

theorem mem_namesBelow_iff : names ∈ tree.namesBelow true folder ↔ ∃ place,
    tree.folderPlace? folder = some place ∧ names ≠ []
      ∧ tree.entryAt? (place ++ names) = some .folder ∧ (∀ name ∈ names, isHidden name = false)
      ∧ IsShortTo folder names := by
  unfold namesBelow
  rcases tree.folderPlace? folder with _ | place
  · simp
  simp only [List.mem_filterMap, Prod.exists, namesBehind_eq_some_iff, Option.some.injEq,
    exists_eq_left']
  constructor
  · rintro ⟨_, _, hmem, rfl, hne, hvisible, rfl, hshort⟩
    exact ⟨hne, ((mem_entries_iff h).1 hmem).2, hvisible, hshort⟩
  · rintro ⟨hne, hentry, hvisible, hshort⟩
    exact ⟨place ++ names, .folder, (mem_entries_iff h).2 ⟨by simp [hne], hentry⟩, rfl, hne,
      hvisible, rfl, hshort⟩

/-- The folders below a folder, by the names on the way to them. -/
theorem mem_below_iff {sub : Text} : sub ∈ tree.below true folder ↔ ∃ place names,
    tree.folderPlace? folder = some place ∧ names ≠ []
      ∧ tree.entryAt? (place ++ names) = some .folder ∧ (∀ name ∈ names, isHidden name = false)
      ∧ IsShortTo folder names ∧ sub = Text.join ['/'] names := by
  simp only [below, List.mem_map, mem_namesBelow_iff h]
  constructor
  · rintro ⟨names, ⟨place, hplace, hne, hentry, hvisible, hshort⟩, rfl⟩
    exact ⟨place, names, hplace, hne, hentry, hvisible, hshort, rfl⟩
  · rintro ⟨place, names, hplace, hne, hentry, hvisible, hshort, rfl⟩
    exact ⟨names, ⟨place, hplace, hne, hentry, hvisible, hshort⟩, rfl⟩

theorem nodup_names (place : Place) : (tree.names place).Nodup := by
  refine List.Nodup.filterMap (fun found other name hfound hother => ?_) h.nodup
  rw [nameIn_eq_some_iff.1 hfound, nameIn_eq_some_iff.1 hother]

theorem nodup_namesBelow (folder : Text) : (tree.namesBelow true folder).Nodup := by
  unfold namesBelow
  rcases tree.folderPlace? folder with _ | place
  · exact List.nodup_nil
  rw [List.Nodup, List.pairwise_filterMap]
  refine (List.pairwise_map.1 h.nodup).imp ?_
  rintro ⟨found, entry⟩ ⟨other, entry'⟩ hkey names hnames _ hnames' rfl
  exact hkey ((namesBehind_eq_some_iff.1 hnames).1.trans (namesBehind_eq_some_iff.1 hnames').1.symm)

theorem splitAt_of_mem_namesBelow (hnames : names ∈ tree.namesBelow true folder) :
    Text.splitAt '/' (Text.join ['/'] names) = names := by
  obtain ⟨place, -, hne, hentry, -⟩ := (mem_namesBelow_iff h).1 hnames
  have hstands : tree.entryAt? (place ++ names) ≠ none := by simp [hentry]
  have hparts := isEntryName_of_entryAt? h hstands
  exact Text.splitAt_join hne fun name hname =>
    (hparts name (List.mem_append_right place hname)).no_slash

theorem nodup_below (folder : Text) : (tree.below true folder).Nodup := by
  refine (nodup_namesBelow h folder).map_on fun names hnames names' hnames' hjoin => ?_
  rw [← splitAt_of_mem_namesBelow h hnames, hjoin, splitAt_of_mem_namesBelow h hnames']

end Below

end FileTree

end Dialogue
