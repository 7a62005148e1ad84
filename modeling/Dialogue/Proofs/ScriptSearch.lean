import Dialogue.Proofs.RootPatterns
import Dialogue.Script.Index
import Mathlib.Data.Char
import Mathlib.Data.List.Lex

/-!
# The scripts below a folder

What is found below a folder is what stands there under a fitting name, with no dot in front of it
or of a folder on the way (`mem_endingBelow_iff`). Its path says by which names it goes on from the
folder, so nothing is found twice (`nodup_endingBelow`). The search starts from the folders that the
root stands for as a pattern, so a root that is no pattern gives the scripts below it
(`finds_below_root`), and a folder whose name is one need not give a single one of its own
(`not_below_of_bracket`).
-/

namespace Dialogue

namespace Text

/-- Texts are compared by their first code points that differ. -/
theorem le_eq_true_iff : ∀ {s t : Text}, le s t = true ↔ s ≤ t
  | [], t => iff_of_true (by simp [le]) (not_lt.1 List.not_lex_nil)
  | c :: s, [] => iff_of_false (by simp [le]) (not_le.2 .nil)
  | c :: s, d :: t => by
    have hlt : d :: t < c :: s ↔ d < c ∨ d = c ∧ t < s := List.cons_lex_cons_iff
    rw [le, ← not_lt, hlt]
    split_ifs with h
    · simp [h, le_eq_true_iff]
    · have hchar : c.toNat < d.toNat ↔ c < d := Iff.rfl
      rw [decide_eq_true_eq, hchar, lt_iff_le_and_ne]
      simp [h, Ne.symm h]

theorem pairwise_sort (texts : List Text) : (sort texts).Pairwise fun s t => s ≤ t := by
  have htrans : ∀ r s t, le r s = true → le s t = true → le r t = true := by
    simp only [le_eq_true_iff]
    exact fun _ _ _ => le_trans
  have htotal : ∀ s t, (le s t || le t s) = true := by
    simp only [Bool.or_eq_true, le_eq_true_iff]
    exact le_total
  exact (List.pairwise_mergeSort htrans htotal texts).imp le_eq_true_iff.1

end Text

namespace FileTree

variable {tree : FileTree} {root ending : Text}

/-- The names on the way from a folder to an entry with an ending: none of them starts with a dot,
and the path of the folder that holds the entry is not too long for the system. -/
structure IsFound (tree : FileTree) (ending folder : Text) (place : Place) (folders : List Text)
    (name : Text) : Prop where
  stands : tree.entryAt? (place ++ folders ++ [name]) ≠ none
  visible : ∀ part ∈ folders ++ [name], isHidden part = false
  ends : ending <:+ name
  short : isLongerThan maxPath (Path.join folder (Text.join ['/'] folders)) = false

/-- The paths of these entries go on from that of the folder. -/
def PathBelow (tree : FileTree) (ending folder : Text) (place : Place) (path : Text) : Prop :=
  ∃ folders name, IsFound tree ending folder place folders name
    ∧ path = Path.join folder (Text.join ['/'] (folders ++ [name]))

section Level

variable {folders : List Text} {name folder path : Text} {place : Place}

theorem getLast?_join (hne : folders ≠ []) (hfolders : ∀ name ∈ folders, IsEntryName name) :
    (Text.join ['/'] folders).getLast? ≠ some '/' := by
  intro hlast
  obtain ⟨start, hstart⟩ := List.getLast?_eq_some_iff.1 hlast
  have hsplit := Text.splitAt_join hne fun name hname => (hfolders name hname).no_slash
  rw [hstart, Text.splitAt_append] at hsplit
  have hempty : [] ∈ folders := by
    rw [← hsplit]
    exact List.mem_append_right _ (List.mem_singleton_self [])
  exact (hfolders [] hempty).ne_nil rfl

theorem join_concat_names (hfolders : ∀ name ∈ folders, IsEntryName name)
    (hname : IsEntryName name) : Path.join (Path.join folder (Text.join ['/'] folders)) name
      = Path.join folder (Text.join ['/'] (folders ++ [name])) := by
  have hall : ∀ part ∈ folders ++ [name], IsEntryName part := by
    simpa [or_imp, forall_and] using ⟨hfolders, hname⟩
  have habsolute : Path.isAbsolute name = false := by
    simpa [Text.join] using @isAbsolute_join [name] (by simpa using hname)
  rcases eq_or_ne folders [] with rfl | hne
  · change Path.join (Path.join folder []) name = Path.join folder name
    rw [Path.join_front (Path.isFront_join_nil folder) habsolute, ← Path.join_eq_append _ habsolute]
  · have hslash := getLast?_join hne hfolders
    have hsub : Text.join ['/'] folders ≠ [] := (join_eq_nil_iff hfolders).not.2 hne
    rw [Path.join_eq_append folder (isAbsolute_join hfolders), Path.join_of_name _ habsolute, if_neg,
      Path.join_eq_append folder (isAbsolute_join hall), Text.join_concat _ hne]
    · simp
    · rw [List.getLast?_append_of_ne_nil _ hsub]
      simp [hsub, hslash]

/-- Different names behind a folder make different paths. -/
theorem join_names_inj {parts parts' : List Text} (hne : parts ≠ []) (hne' : parts' ≠ [])
    (hparts : ∀ part ∈ parts, IsEntryName part) (hparts' : ∀ part ∈ parts', IsEntryName part)
    (heq : Path.join folder (Text.join ['/'] parts) = Path.join folder (Text.join ['/'] parts')) :
    parts = parts' := by
  rw [Path.join_eq_append folder (isAbsolute_join hparts),
    Path.join_eq_append folder (isAbsolute_join hparts')] at heq
  have hsplit := Text.splitAt_join hne fun part hpart => (hparts part hpart).no_slash
  have hsplit' := Text.splitAt_join hne' fun part hpart => (hparts' part hpart).no_slash
  rw [← hsplit, List.append_cancel_left heq, hsplit']

theorem mem_matching_iff (hplain : Pattern.hasMagic ending = false) :
    name ∈ tree.matching false folder ('*' :: ending) ↔ ∃ place,
      tree.folderPlace? folder = some place ∧ name ∈ tree.names place ∧ isHidden name = false
        ∧ ending <:+ name := by
  unfold matching
  rcases tree.folderPlace? folder with _ | place
  · simp
  · have hshown : isHidden ('*' :: ending) = false := rfl
    simp [hshown, Pattern.accepts_star hplain]

/-- The folders to look into are the folder itself and those below it. -/
theorem exists_names {sub : Text} (h : IsTree tree) (hsub : sub ∈ [] :: tree.below true folder) :
    ∃ names, (∀ name ∈ names, IsEntryName name) ∧ (∀ name ∈ names, isHidden name = false)
      ∧ sub = Text.join ['/'] names := by
  rcases List.mem_cons.1 hsub with rfl | hbelow
  · exact ⟨[], by simp [Text.join]⟩
  · obtain ⟨place, names, -, -, hentry, hvisible, -, rfl⟩ := (mem_below_iff h).1 hbelow
    refine ⟨names, fun name hname => ?_, hvisible, rfl⟩
    exact isEntryName_of_entryAt? h (by simp [hentry]) name (List.mem_append_right place hname)

/-- Where the path of a folder is not too long that of the folder that holds it is not either. -/
theorem isShortTo_of_short (hfolders : ∀ name ∈ folders, IsEntryName name)
    (hshort : isLongerThan maxPath (Path.join folder (Text.join ['/'] folders)) = false) :
    IsShortTo folder folders := by
  rcases List.eq_nil_or_concat' folders with rfl | ⟨names, name, rfl⟩
  · exact hshort
  · obtain ⟨hnames, hname⟩ : (∀ name ∈ names, IsEntryName name) ∧ IsEntryName name := by
      simpa [or_imp, forall_and] using hfolders
    have habsolute : Path.isAbsolute name = false := by
      simpa [Text.join] using @isAbsolute_join [name] (by simpa using hname)
    rw [← join_concat_names hnames hname, Path.join_of_name _ habsolute] at hshort
    rw [IsShortTo, List.dropLast_concat]
    split_ifs at hshort <;> exact isLongerThan_append hshort

theorem mem_folders (h : IsTree tree) (hplace : tree.folderPlace? folder = some place)
    (hentry : tree.entryAt? (place ++ folders) = some .folder)
    (hvisible : ∀ name ∈ folders, isHidden name = false)
    (hshort : IsShortTo folder folders) :
    Text.join ['/'] folders ∈ [] :: tree.below true folder := by
  rcases eq_or_ne folders [] with rfl | hne
  · exact List.mem_cons_self
  · have hbelow := (mem_below_iff h).2 ⟨place, folders, hplace, hne, hentry, hvisible, hshort, rfl⟩
    exact List.mem_cons_of_mem _ hbelow

/-- What is found in one of these folders has names of its own. -/
theorem exists_parts {sub : Text} (h : IsTree tree) (hplain : Pattern.hasMagic ending = false)
    (hsub : sub ∈ [] :: tree.below true folder)
    (hname : name ∈ tree.matching false (Path.join folder sub) ('*' :: ending)) :
    ∃ place folders, tree.folderPlace? folder = some place
      ∧ IsFound tree ending folder place folders name ∧ sub = Text.join ['/'] folders
      ∧ Path.join (Path.join folder sub) name
        = Path.join folder (Text.join ['/'] (folders ++ [name])) := by
  obtain ⟨folders, hfolders, hvisible, rfl⟩ := exists_names h hsub
  obtain ⟨goal, hgoal, hmem, hshown, hends⟩ := (mem_matching_iff hplain).1 hname
  obtain ⟨hshort, place, hplace, rfl, -⟩ := (folderPlace?_join_iff hfolders h).1 hgoal
  have hstands := ((mem_keys_iff h).1 (mem_names_iff.1 hmem)).2
  have hentry : IsEntryName name := isEntryName_of_entryAt? h hstands name (by simp)
  refine ⟨place, folders, hplace, ⟨hstands, ?_, hends, hshort⟩, rfl,
    join_concat_names hfolders hentry⟩
  simpa [or_imp, forall_and] using ⟨hvisible, hshown⟩

theorem IsFound.isEntryName (hfound : IsFound tree ending folder place folders name)
    (h : IsTree tree) : ∀ part ∈ folders ++ [name], IsEntryName part := by
  intro part hpart
  refine isEntryName_of_entryAt? h hfound.stands part ?_
  rw [List.append_assoc]
  exact List.mem_append_right place hpart

theorem mem_endingBelow_iff (h : IsTree tree) (hplain : Pattern.hasMagic ending = false) :
    path ∈ tree.endingBelow ending folder ↔ ∃ place, tree.folderPlace? folder = some place
      ∧ tree.PathBelow ending folder place path := by
  simp only [endingBelow, List.mem_flatMap, List.mem_map]
  constructor
  · rintro ⟨-, ⟨sub, hsub, rfl⟩, name, hname, rfl⟩
    obtain ⟨place, folders, hplace, hfound, -, hpath⟩ := exists_parts h hplain hsub hname
    exact ⟨place, hplace, folders, name, hfound, hpath⟩
  · rintro ⟨place, hplace, folders, name, hfound, rfl⟩
    obtain ⟨hfolders, hname⟩ : (∀ part ∈ folders, IsEntryName part) ∧ IsEntryName name := by
      simpa [or_imp, forall_and] using hfound.isEntryName h
    obtain ⟨hvisible, hshown⟩ :
        (∀ part ∈ folders, isHidden part = false) ∧ isHidden name = false := by
      simpa [or_imp, forall_and] using hfound.visible
    have hfolder := folder_of_append h (List.cons_ne_nil name []) hfound.stands
    have hgoal := (folderPlace?_join_iff hfolders h).2 ⟨hfound.short, place, hplace, rfl, hfolder⟩
    have hmem := mem_names_iff.2 ((mem_keys_iff h).2 ⟨by simp, hfound.stands⟩)
    have hshort := isShortTo_of_short hfolders hfound.short
    exact ⟨_, ⟨_, mem_folders h hplace hfolder hvisible hshort, rfl⟩, name,
      (mem_matching_iff hplain).2 ⟨_, hgoal, hmem, hshown, hfound.ends⟩,
      join_concat_names hfolders hname⟩

/-- A path says in which folder what it leads to is found, and under which name. -/
theorem eq_of_join_eq {sub sub' name' : Text} (h : IsTree tree)
    (hplain : Pattern.hasMagic ending = false) (hsub : sub ∈ [] :: tree.below true folder)
    (hsub' : sub' ∈ [] :: tree.below true folder)
    (hname : name ∈ tree.matching false (Path.join folder sub) ('*' :: ending))
    (hname' : name' ∈ tree.matching false (Path.join folder sub') ('*' :: ending))
    (heq : Path.join (Path.join folder sub) name = Path.join (Path.join folder sub') name') :
    sub = sub' ∧ name = name' := by
  obtain ⟨place, folders, -, hfound, rfl, hpath⟩ := exists_parts h hplain hsub hname
  obtain ⟨place', folders', -, hfound', rfl, hpath'⟩ := exists_parts h hplain hsub' hname'
  have hparts := join_names_inj (by simp) (by simp) (hfound.isEntryName h) (hfound'.isEntryName h)
    (hpath.symm.trans (heq.trans hpath'))
  obtain ⟨rfl, hlast⟩ := List.append_inj' hparts rfl
  exact ⟨rfl, (List.cons.inj hlast).1⟩

theorem nodup_folders (h : IsTree tree) (folder : Text) : ([] :: tree.below true folder).Nodup := by
  refine List.nodup_cons.2 ⟨fun hmem => ?_, nodup_below h folder⟩
  obtain ⟨place, names, -, hne, hentry, -, -, hjoin⟩ := (mem_below_iff h).1 hmem
  have hnames : ∀ name ∈ names, IsEntryName name := fun name hname =>
    isEntryName_of_entryAt? h (by simp [hentry]) name (List.mem_append_right place hname)
  exact hne ((join_eq_nil_iff hnames).1 hjoin.symm)

theorem nodup_endingBelow (h : IsTree tree) (hplain : Pattern.hasMagic ending = false)
    (folder : Text) : (tree.endingBelow ending folder).Nodup := by
  rw [endingBelow, List.flatMap_map, List.nodup_flatMap]
  constructor
  · intro sub hsub
    refine List.Nodup.map_on (fun name hname name' hname' heq => ?_) ?_
    · exact (eq_of_join_eq h hplain hsub hsub hname hname' heq).2
    · unfold matching
      split
      · exact List.nodup_nil
      · exact (nodup_names h _).filter _
  · refine (nodup_folders h folder).pairwise_of_forall_ne fun sub hsub sub' hsub' hne => ?_
    intro path hpath hpath'
    obtain ⟨name, hname, rfl⟩ := List.mem_map.1 hpath
    obtain ⟨name', hname', heq⟩ := List.mem_map.1 hpath'
    exact hne (eq_of_join_eq h hplain hsub hsub' hname hname' heq.symm).1

end Level

/-- A search looks into no folder with a null character if its pattern has none. -/
theorem looksInNull_eq_false {pattern : Text} (h : '\x00' ∉ pattern) :
    looksInNull pattern = false := by
  rw [looksInNull, Bool.and_eq_false_iff, Path.holdsNull, List.contains_eq_mem,
    decide_eq_false_iff_not]
  refine .inr fun hmem => h ?_
  have hfront := List.mem_reverse.1 ((List.dropWhile_suffix _).subset (List.mem_reverse.1 hmem))
  exact (List.takeWhile_prefix _).subset hfront

theorem expand_ending (h : IsTree tree) (hplain : Pattern.hasMagic ending = false)
    (hslash : '/' ∉ ending) (hroot : tree.isFolder root = true) :
    tree.expand (Path.join root (endingPattern ending))
      = (tree.rootFolders root).flatMap (tree.endingBelow ending) := by
  have hfound := expandTo_glob hplain hslash hroot (Nat.lt_succ_self _)
  have hnil : [] ∉ (tree.rootFolders root).flatMap (tree.endingBelow ending) := by
    intro hmem
    obtain ⟨folder, -, hbelow⟩ := List.mem_flatMap.1 hmem
    obtain ⟨place, -, folders, name, hentry, hpath⟩ := (mem_endingBelow_iff h hplain).1 hbelow
    have hparts := hentry.isEntryName h
    rw [Path.join_eq_append folder (isAbsolute_join hparts), eq_comm, List.append_eq_nil_iff,
      join_eq_nil_iff hparts] at hpath
    simp at hpath
  have hhead : ((tree.rootFolders root).flatMap (tree.endingBelow ending)).head? ≠ some [] :=
    fun hhead => hnil (List.mem_of_head? hhead)
  rw [expand, hfound, if_neg (by simp [hhead])]

end FileTree

namespace Script

open FileTree

/-- Unless the folders lie too deep scripts are found. They are sorted, and they are those below the
folders that the root stands for as a pattern. A root without pattern characters stands for itself
alone, and then each script below it is found once. -/
theorem finds_below_root {tree : FileTree} {root : Text} (h : tree.IsTree)
    (hroot : tree.isFolder root = true) :
    ∃ found, (∀ room, find room tree root defaultPattern
          = ([], if room < tree.searchDepth (Path.join root defaultPattern) then .error .tooDeep
            else .ok found))
      ∧ (found.Pairwise fun s t => s ≤ t)
      ∧ (∀ path, path ∈ found ↔ ∃ folder ∈ tree.rootFolders root, ∃ place,
          tree.folderPlace? folder = some place ∧ tree.PathBelow ".ev" folder place path)
      ∧ (Pattern.hasMagic root = false → found.Nodup ∧ ∃ place, tree.locate root = .ok place
          ∧ ∀ path, path ∈ found ↔ tree.PathBelow ".ev" (Path.trimSlashes root) place path) := by
  have hplain : Pattern.hasMagic ".ev" = false := by decide
  obtain ⟨place, hplace, hfolder⟩ := isFolder_iff.1 hroot
  obtain ⟨hne, hnull, -⟩ := locate_eq_ok_iff.1 hplace
  have hlooks : looksInNull (Path.join root defaultPattern) = false := by
    refine looksInNull_eq_false ?_
    rw [Path.join_of_name root (by decide)]
    have hpattern : '\x00' ∉ defaultPattern := by decide
    split_ifs <;> simp [hnull, hpattern]
  have hfind : ∀ room, find room tree root defaultPattern
      = ([], if room < tree.searchDepth (Path.join root defaultPattern) then .error .tooDeep
        else .ok (Text.sort ((tree.rootFolders root).flatMap (tree.endingBelow ".ev")))) := by
    intro room
    rw [find, if_pos hroot, glob, hlooks, ← expand_ending h hplain (by decide) hroot]
    rfl
  have hmem : ∀ path, path ∈ Text.sort ((tree.rootFolders root).flatMap (tree.endingBelow ".ev"))
      ↔ ∃ folder ∈ tree.rootFolders root, ∃ place, tree.folderPlace? folder = some place
        ∧ tree.PathBelow ".ev" folder place path := by
    intro path
    rw [Text.sort, List.mem_mergeSort, List.mem_flatMap]
    exact exists_congr fun folder => and_congr_right fun _ => mem_endingBelow_iff h hplain
  refine ⟨_, hfind, Text.pairwise_sort _, hmem, fun hmagic => ?_⟩
  have hroots := rootFolders_of_plain hmagic hroot
  have hplace' : tree.folderPlace? (Path.trimSlashes root) = some place :=
    (folderPlace?_eq_some_iff (Path.trimSlashes_ne_nil hne)).2
      ⟨locate_trimSlashes hplace hfolder, hfolder⟩
  refine ⟨?_, place, hplace, fun path => ?_⟩
  · rw [Text.sort, (List.mergeSort_perm _ _).nodup_iff, hroots, List.flatMap_singleton]
    exact nodup_endingBelow h hplain _
  · rw [hmem, hroots]
    simp [hplace']

/-- A folder with files in a folder of its own, in one that is hidden, and in itself. -/
def nestedTree : FileTree := ⟨["w"], .ofList
  [(["w"], .folder), (["w", "data"], .folder), (["w", "data", ".git"], .folder),
    (["w", "data", ".git", "c.ev"], .file []), (["w", "data", "sub"], .folder),
    (["w", "data", "sub", "b.ev"], .file []), (["w", "data", "a.evt"], .file [])]⟩

theorem finds_below_root_nested : nestedTree.IsTree ∧ nestedTree.isFolder "data/" = true
    ∧ Pattern.hasMagic "data/" = false
    ∧ (find 3 nestedTree "data/" defaultPattern).2 = .error .tooDeep
    ∧ ∃ found, (find 4 nestedTree "data/" defaultPattern).2 = .ok found ∧ found.Nodup
      ∧ ("data/sub/b.ev" : Text) ∈ found ∧ ("data/.git/c.ev" : Text) ∉ found := by
  have htree : nestedTree.IsTree := by decide +kernel
  have hroot : nestedTree.isFolder "data/" = true := by decide +kernel
  have hmagic : Pattern.hasMagic "data/" = false := by decide
  obtain ⟨found, hfind, -, -, hplain⟩ := finds_below_root htree hroot
  obtain ⟨hnodup, place, hplace, hbelow⟩ := hplain hmagic
  obtain rfl : (["w", "data"] : List Text) = place := by
    have hdata : nestedTree.locate "data/" = .ok ["w", "data"] := by decide +kernel
    exact Except.ok.inj (hdata.symm.trans hplace)
  have hdepth : nestedTree.searchDepth (Path.join "data/" defaultPattern) = 4 := by decide +kernel
  have hdeep : (find 3 nestedTree "data/" defaultPattern).2 = .error .tooDeep := by
    rw [hfind, hdepth]
    rfl
  have hfound : (find 4 nestedTree "data/" defaultPattern).2 = .ok found := by
    rw [hfind, hdepth]
    rfl
  refine ⟨htree, hroot, hmagic, hdeep, found, hfound, hnodup, (hbelow _).2 ?_, fun hmem => ?_⟩
  · exact ⟨["sub"], "b.ev", ⟨by decide +kernel, by decide, by decide, by decide⟩, rfl⟩
  · obtain ⟨folders, name, hentry, hpath⟩ := (hbelow _).1 hmem
    have hnames : ∀ part ∈ ([".git", "c.ev"] : List Text), IsEntryName part := by decide +kernel
    have hparts := @join_names_inj "data" _ _ (by simp) (by simp) hnames
      (hentry.isEntryName htree) hpath
    have hhidden := hentry.visible ".git" (hparts ▸ List.mem_cons_self)
    cases hhidden

/-- A folder with a set of characters in its name, beside the one that this name stands for. -/
def bracketTree : FileTree := ⟨[], .ofList
  [(["a[b]"], .folder), (["a[b]", "x.ev"], .file []), (["ab"], .folder),
    (["ab", "y.ev"], .file [])]⟩

theorem not_below_of_bracket : bracketTree.IsTree ∧ bracketTree.isFolder "a[b]" = true
    ∧ bracketTree.PathBelow ".ev" "a[b]" ["a[b]"] "a[b]/x.ev"
    ∧ (∀ place, ¬ bracketTree.PathBelow ".ev" "a[b]" place "ab/y.ev")
    ∧ (find 3 bracketTree "a[b]" defaultPattern).2 = .ok [("ab/y.ev" : Text)] := by
  have htree : bracketTree.IsTree := by decide +kernel
  have hroot : bracketTree.isFolder "a[b]" = true := by decide +kernel
  have hexpand : bracketTree.expand (Path.join "a[b]" defaultPattern)
      = [("ab/y.ev" : Text)] := by
    decide +kernel
  refine ⟨htree, hroot, ?_, ?_, ?_⟩
  · exact ⟨[], "x.ev", ⟨by decide +kernel, by decide, by decide, by decide⟩, rfl⟩
  · rintro place ⟨folders, name, hentry, hpath⟩
    rw [Path.join_eq_append _ (isAbsolute_join (hentry.isEntryName htree))] at hpath
    have hfront : Path.join "a[b]" [] = "a[b]/" := rfl
    rw [hfront] at hpath
    have hsecond := (List.cons.inj (List.cons.inj hpath).2).1
    cases hsecond
  · have hdepth : bracketTree.searchDepth (Path.join "a[b]" defaultPattern) = 3 := by decide +kernel
    have hlooks : looksInNull (Path.join "a[b]" defaultPattern) = false := by decide +kernel
    have hsort : Text.sort [("ab/y.ev" : Text)] = [("ab/y.ev" : Text)] := List.mergeSort_singleton _
    rw [find, if_pos hroot, glob, hexpand, hdepth, hlooks, hsort]
    rfl

end Script

end Dialogue
