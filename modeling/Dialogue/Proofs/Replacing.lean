import Dialogue.FileTree.Replace
import Dialogue.Proofs.Locating
import Dialogue.Proofs.Tables
import Dialogue.Proofs.Utf8

/-!
# Replacing a file

A path leads to the same place as long as the folders are the same (`SameFolders`), and the place
ends with the last name of the path (`getLast?_of_locate`). So a replacement that succeeds leaves
its text at the path, and the files of other names in the folder are as they were
(`replace_of_replace`). Whether it succeeds does not depend on the text.
-/

namespace Dialogue

namespace Path

/-- A name that leads from a folder to a place of its own in it. -/
structure IsName (name : Text) : Prop where
  ne_nil : name ≠ []
  ne_dot : name ≠ ['.']
  ne_dots : name ≠ ['.', '.']
  no_slash : '/' ∉ name

/-- The path of a folder, up to its slash. -/
def IsFront (front : Text) : Prop := front = [] ∨ ∃ start, front = start ++ ['/']

theorem join_eq (first : Text) {name : Text} (h : IsName name) :
    ∃ front, IsFront front ∧ join first name = front ++ name := by
  have habsolute : isAbsolute name = false := by
    obtain ⟨c, rest, rfl⟩ := List.exists_cons_of_ne_nil h.ne_nil
    have hc : c ≠ '/' := fun hc => h.no_slash (by simp [hc])
    simpa [isAbsolute] using hc
  rw [join, if_neg (by simp [habsolute])]
  by_cases hfront : (first.isEmpty || first.getLast? == some '/') = true
  · rw [if_pos hfront]
    refine ⟨first, ?_, rfl⟩
    rcases Bool.or_eq_true_iff.1 hfront with hnil | hslash
    · exact .inl (by simpa using hnil)
    · exact .inr (List.getLast?_eq_some_iff.1 (by simpa using hslash))
  · rw [if_neg hfront]
    exact ⟨first ++ ['/'], .inr ⟨first, rfl⟩, by rw [List.append_assoc]; rfl⟩

theorem base_append {front name : Text} (hfront : IsFront front) (hname : IsName name) :
    base (front ++ name) = name := by
  have hkept : ∀ c ∈ name.reverse, (c != '/') = true := by
    intro c hc
    have hne : c ≠ '/' := fun h => hname.no_slash (h ▸ List.mem_reverse.1 hc)
    simpa using hne
  have hstop : front.reverse.takeWhile (· != '/') = [] := by
    rcases hfront with rfl | ⟨start, rfl⟩ <;> simp
  rw [base, List.reverse_append, List.takeWhile_append_of_pos hkept, hstop, List.append_nil,
    List.reverse_reverse]

end Path

namespace Text

theorem splitAt_ne_nil (separator : Char) : ∀ text : Text, splitAt separator text ≠ []
  | [] => by simp [splitAt]
  | c :: text => by
    unfold splitAt
    split
    · simp
    · rcases h : splitAt separator text with _ | ⟨part, parts⟩ <;> simp [consFirst]

theorem splitAt_of_not_mem {separator : Char} : ∀ {text : Text}, separator ∉ text →
    splitAt separator text = [text]
  | [], _ => rfl
  | c :: text, h => by
    have hc : c ≠ separator := fun heq => h (by simp [heq])
    rw [splitAt, if_neg hc, splitAt_of_not_mem fun hmem => h (List.mem_cons_of_mem c hmem)]
    rfl

theorem splitAt_append (separator : Char) (rest : Text) : ∀ start : Text,
    splitAt separator (start ++ separator :: rest)
      = splitAt separator start ++ splitAt separator rest
  | [] => by simp [splitAt]
  | c :: start => by
    rw [List.cons_append, splitAt, splitAt, splitAt_append separator rest start]
    split
    · rfl
    · obtain ⟨part, parts, hparts⟩ := List.exists_cons_of_ne_nil (splitAt_ne_nil separator start)
      rw [hparts]
      rfl

end Text

namespace FileTree

variable {tree after : FileTree} {path : Text}

theorem walk_eq_ok_iff {place goal : Place} {first : Text} {rest : List Text} :
    tree.walk place (first :: rest) = .ok goal ↔ tree.entryAt? place = some .folder
      ∧ isLongerThan maxName first = false ∧ tree.walk (enter place first) rest = .ok goal := by
  rw [walk]
  split
  · simp_all
  · simp_all
  · split <;> simp_all

theorem enter_of_isName {name : Text} (h : Path.IsName name) (place : Place) :
    enter place name = place ++ [name] := by
  simp [enter, h.ne_nil, h.ne_dot, h.ne_dots]

theorem getLast?_of_walk {name : Text} (hname : Path.IsName name) : ∀ {names : List Text}
    {place goal : Place}, names.getLast? = some name → tree.walk place names = .ok goal →
      goal.getLast? = some name
  | [first], place, goal, hlast, hwalk => by
    obtain rfl : first = name := by simpa using hlast
    obtain ⟨-, -, hgoal⟩ := walk_eq_ok_iff.1 hwalk
    rw [← Except.ok.inj hgoal, enter_of_isName hname, List.getLast?_concat]
  | first :: second :: rest, place, goal, hlast, hwalk =>
    getLast?_of_walk hname (by simpa using hlast) (walk_eq_ok_iff.1 hwalk).2.2

/-- The place of a path ends with the last name of the path. -/
theorem getLast?_of_locate {front name : Text} (hfront : Path.IsFront front)
    (hname : Path.IsName name) {place : Place} (h : tree.locate (front ++ name) = .ok place) :
    place.getLast? = some name := by
  obtain ⟨-, -, -, hwalk⟩ := locate_eq_ok_iff.1 h
  refine getLast?_of_walk hname ?_ hwalk
  rcases hfront with rfl | ⟨start, rfl⟩
  · rw [List.nil_append, Text.splitAt_of_not_mem hname.no_slash]
    rfl
  · rw [List.append_assoc, List.singleton_append, Text.splitAt_append,
      Text.splitAt_of_not_mem hname.no_slash, List.getLast?_concat]

/-- Two trees with the same folders, in which paths lead to the same places. -/
structure SameFolders (tree after : FileTree) : Prop where
  home : after.home = tree.home
  folders : ∀ place, after.entryAt? place = some .folder ↔ tree.entryAt? place = some .folder

theorem SameFolders.walk (h : SameFolders tree after) : ∀ {names : List Text} {place goal : Place},
    after.walk place names = .ok goal ↔ tree.walk place names = .ok goal
  | [], _, _ => Iff.rfl
  | _ :: _, _, _ => by rw [walk_eq_ok_iff, walk_eq_ok_iff, h.folders, h.walk]

theorem SameFolders.locate (h : SameFolders tree after) {place : Place} :
    after.locate path = .ok place ↔ tree.locate path = .ok place := by
  rw [locate_eq_ok_iff, locate_eq_ok_iff, root, root, h.home, h.walk]

theorem ne_nil_of_entryAt? {place : Place} (h : tree.entryAt? place ≠ some .folder) :
    place ≠ [] := by
  rintro rfl
  exact h rfl

theorem entryAt?_put {place : Place} (hne : place ≠ []) (entry : Entry) (other : Place) :
    (tree.put place entry).entryAt? other
      = if other = place then some entry else tree.entryAt? other := by
  rcases other with _ | ⟨name, other⟩
  · rw [if_neg (Ne.symm hne)]
    rfl
  · exact Table.get?_insert tree.entries place _ entry

theorem entryAt?_erase {place : Place} (hne : place ≠ []) (other : Place) :
    (tree.erase place).entryAt? other = if other = place then none else tree.entryAt? other := by
  rcases other with _ | ⟨name, other⟩
  · rw [if_neg (Ne.symm hne)]
    rfl
  · change ((tree.entries.entries.filter fun e => e.1 != place).find? fun e => e.1 == name :: other).map
      (·.2) = if name :: other = place then none
        else (tree.entries.entries.find? fun e => e.1 == name :: other).map (·.2)
    rw [List.find?_filter]
    by_cases h : name :: other = place
    · rw [if_pos h, Option.map_eq_none_iff, List.find?_eq_none]
      rintro entry - hentry
      simp [h] at hentry
    · rw [if_neg h]
      congr 2
      funext entry
      by_cases heq : entry.1 = name :: other
      · simp [heq, h]
      · simp [heq]

/-- Folders stay where a place that is none is given something else than a folder. -/
theorem sameFolders_of_entryAt? {place : Place} {entry : Option Entry}
    (h : tree.entryAt? place ≠ some .folder) (hentry : entry ≠ some .folder)
    (hhome : after.home = tree.home) (hat : ∀ other,
      after.entryAt? other = if other = place then entry else tree.entryAt? other) :
    SameFolders tree after := by
  refine ⟨hhome, fun other => ?_⟩
  rw [hat]
  split
  · rename_i heq
    rw [heq]
    exact iff_of_false hentry h
  · exact Iff.rfl

theorem sameFolders_put {place : Place} (h : tree.entryAt? place ≠ some .folder)
    (content : Bytes) : SameFolders tree (tree.put place (.file content)) :=
  sameFolders_of_entryAt? h (by simp) rfl (entryAt?_put (ne_nil_of_entryAt? h) _)

theorem sameFolders_erase {place : Place} (h : tree.entryAt? place ≠ some .folder) :
    SameFolders tree (tree.erase place) :=
  sameFolders_of_entryAt? h (by simp) rfl (entryAt?_erase (ne_nil_of_entryAt? h))

theorem SameFolders.trans {last : FileTree} (h : SameFolders tree after)
    (hlast : SameFolders after last) : SameFolders tree last :=
  ⟨hlast.home.trans h.home, fun place => (hlast.folders place).trans (h.folders place)⟩

theorem write_eq_ok_iff {content : Bytes} : tree.write path content = .ok after
    ↔ ∃ place, tree.locateNew path = .ok place ∧ endsInSlash path = false
      ∧ tree.entryAt? place ≠ some .folder ∧ after = tree.put place (.file content) := by
  unfold write
  rcases tree.locateNew path with cause | place
  · simp
  · simp only [Except.ok.injEq, exists_eq_left']
    by_cases hslash : endsInSlash path = true
    · simp [hslash]
    · by_cases hfolder : tree.entryAt? place = some .folder
      · simp [hfolder]
      · simp [hslash, hfolder, eq_comm (a := after)]

theorem move_eq_ok_iff {source target : Text} : tree.move source target = .ok after
    ↔ ∃ origin goal content, tree.locate source = .ok origin ∧ tree.locate target = .ok goal
      ∧ Path.base (Path.trimSlashes target) ∉ [[], ['.'], ['.', '.']]
      ∧ tree.entryAt? origin = some (.file content) ∧ endsInSlash target = false
      ∧ tree.entryAt? goal ≠ some .folder
      ∧ after = (tree.erase origin).put goal (.file content) := by
  unfold move
  rcases tree.locate source with cause | origin
  · simp [bind, Except.bind]
  rcases tree.locate target with cause | goal
  · simp [bind, Except.bind]
  simp only [bind, Except.bind]
  by_cases hname : Path.base (Path.trimSlashes target) ∈ [[], ['.'], ['.', '.']]
  · rw [if_pos (by simpa [or_assoc] using hname)]
    simp [hname]
  · rw [if_neg (by simpa [or_assoc] using hname)]
    rcases horigin : tree.entryAt? origin with _ | _ | content
    · simp [horigin]
    · simp [horigin]
    · by_cases hslash : endsInSlash target = true
      · simp [hslash]
      · by_cases hgoal : tree.entryAt? goal = some .folder
        · simp [hslash, hgoal]
        · have hproper := hname
          simp only [List.mem_cons, List.not_mem_nil, or_false, not_or] at hproper
          simp [hslash, hgoal, horigin, hproper, eq_comm (a := after)]

theorem trimSlashes_of_endsInSlash (h : endsInSlash path = false) :
    Path.trimSlashes path = path := by
  unfold Path.trimSlashes
  split
  · rfl
  · rcases path.eq_nil_or_concat with rfl | ⟨start, c, rfl⟩
    · rfl
    · have hc : c ≠ '/' := by simpa [endsInSlash] using h
      simp [hc]

theorem locate_of_locateNew {place : Place} (h : tree.locateNew path = .ok place)
    (hslash : endsInSlash path = false) : tree.locate path = .ok place := by
  unfold locateNew at h
  split_ifs at h
  rwa [trimSlashes_of_endsInSlash hslash] at h

/-- A file can be put to a path by way of the temporary one beside it. -/
structure Replaceable (tree : FileTree) (path : Text) (origin goal : Place) : Prop where
  origin_new : tree.locateNew (temporaryPath path) = .ok origin
  origin_name : endsInSlash (temporaryPath path) = false
  origin_free : tree.entryAt? origin ≠ some .folder
  goal_eq : tree.locate path = .ok goal
  goal_name : endsInSlash path = false
  goal_free : tree.entryAt? goal ≠ some .folder
  own_name : Path.base (Path.trimSlashes path) ∉ [[], ['.'], ['.', '.']]

/-- The tree after a file was put to its place by way of another place. -/
def moved (tree : FileTree) (origin goal : Place) (content : Bytes) : FileTree :=
  ((tree.put origin (.file content)).erase origin).put goal (.file content)

namespace Replaceable

variable {origin goal : Place}

/-- The file stands at its place, and nothing is left at the other one. -/
theorem entryAt?_moved (h : Replaceable tree path origin goal) (content : Bytes) (place : Place) :
    (tree.moved origin goal content).entryAt? place = if place = goal then some (.file content)
      else if place = origin then none else tree.entryAt? place := by
  rw [moved, entryAt?_put (ne_nil_of_entryAt? h.goal_free),
    entryAt?_erase (ne_nil_of_entryAt? h.origin_free),
    entryAt?_put (ne_nil_of_entryAt? h.origin_free)]
  split_ifs <;> rfl

theorem replace_eq (h : Replaceable tree path origin goal) (parts : List Text) :
    tree.replace path parts none
      = ⟨tree.moved origin goal (Utf8.encode parts.flatten), [], .ok ()⟩ := by
  set content := Utf8.encode parts.flatten with hcontent
  have hsame := sameFolders_put h.origin_free content
  have hwrite : tree.write (temporaryPath path) content
      = .ok (tree.put origin (.file content)) :=
    write_eq_ok_iff.2 ⟨origin, h.origin_new, h.origin_name, h.origin_free, rfl⟩
  have hplace : (tree.put origin (.file content)).entryAt? origin = some (.file content) := by
    rw [entryAt?_put (ne_nil_of_entryAt? h.origin_free), if_pos rfl]
  have hmove : (tree.put origin (.file content)).move (temporaryPath path) path
      = .ok (tree.moved origin goal content) :=
    move_eq_ok_iff.2 ⟨origin, goal, content,
      hsame.locate.2 (locate_of_locateNew h.origin_new h.origin_name), hsame.locate.2 h.goal_eq,
      h.own_name, hplace, h.goal_name, fun hgoal => h.goal_free ((hsame.folders goal).1 hgoal), rfl⟩
  simp only [replace, ← hcontent, hwrite, hmove]

theorem sameFolders (h : Replaceable tree path origin goal) (content : Bytes) :
    SameFolders tree (tree.moved origin goal content) := by
  have hput := sameFolders_put h.origin_free content
  have herase := hput.trans
    (sameFolders_erase fun horigin => h.origin_free ((hput.folders origin).1 horigin))
  exact herase.trans
    (sameFolders_put (fun hgoal => h.goal_free ((herase.folders goal).1 hgoal)) content)

end Replaceable

theorem abandon_result (tree : FileTree) (path detail : Text) (e : ReplaceError) :
    (abandon tree path detail e).result = .error e := by
  unfold abandon
  simp only []
  split
  · split <;> rfl
  · rfl

theorem replaceable_of_replace {parts : List Text}
    (h : (tree.replace path parts none).result = .ok ()) :
    ∃ origin goal, Replaceable tree path origin goal := by
  unfold replace at h
  simp only [] at h
  rcases hwrite : tree.write (temporaryPath path) (Utf8.encode parts.flatten) with cause | written
  · rw [hwrite] at h
    simp only [abandon_result] at h
    cases h
  rcases hmove : written.move (temporaryPath path) path with cause | last
  · simp only [hwrite, hmove, abandon_result] at h
    cases h
  obtain ⟨origin, hnew, hname, hfree, rfl⟩ := write_eq_ok_iff.1 hwrite
  have hsame := sameFolders_put hfree (Utf8.encode parts.flatten)
  obtain ⟨_, goal, _, -, hgoal, hown, -, hslash, hentry, -⟩ := move_eq_ok_iff.1 hmove
  exact ⟨origin, goal, hnew, hname, hfree, hsame.locate.1 hgoal, hslash,
    fun hfolder => hentry ((hsame.folders goal).2 hfolder), hown⟩

theorem readBytes_eq_ok_iff {content : Bytes} : tree.readBytes path = .ok content
    ↔ ∃ place, tree.locate path = .ok place ∧ tree.entryAt? place = some (.file content) := by
  unfold readBytes status
  rcases tree.locate path with cause | place
  · simp
  · rcases hentry : tree.entryAt? place with _ | _ | found <;> simp [hentry]

namespace Replaceable

variable {origin goal : Place}

theorem readBytes_self (h : Replaceable tree path origin goal) (content : Bytes) :
    (tree.moved origin goal content).readBytes path = .ok content := by
  refine readBytes_eq_ok_iff.2 ⟨goal, (h.sameFolders content).locate.2 h.goal_eq, ?_⟩
  rw [h.entryAt?_moved, if_pos rfl]

theorem readBytes_other (h : Replaceable tree path origin goal) (content : Bytes) {other : Text}
    (hapart : ∀ place, tree.locate other = .ok place → place ≠ origin ∧ place ≠ goal)
    {found : Bytes} : (tree.moved origin goal content).readBytes other = .ok found
      ↔ tree.readBytes other = .ok found := by
  simp only [readBytes_eq_ok_iff, (h.sameFolders content).locate]
  refine exists_congr fun place => and_congr_right fun hplace => ?_
  obtain ⟨horigin, hgoal⟩ := hapart place hplace
  rw [h.entryAt?_moved, if_neg hgoal, if_neg horigin]

end Replaceable

/-- The name of the temporary file beside a file. -/
def temporaryName (name : Text) : Text := '.' :: (name ++ ".tmp")

/-- Where a replacement succeeds, it does with any text: the text stands at the path, and a file of
another name in the folder is as it was. -/
theorem replace_of_replace {folder name : Text} (hname : Path.IsName name)
    (htemporary : Path.IsName (temporaryName name)) {written : List Text}
    (h : (tree.replace (Path.join folder name) written none).result = .ok ()) (parts : List Text) :
    ∃ after, tree.replace (Path.join folder name) parts none = ⟨after, [], .ok ()⟩
      ∧ after.readBytes (Path.join folder name) = .ok (Utf8.encode parts.flatten)
      ∧ ∀ other, Path.IsName other → other ≠ name → other ≠ temporaryName name → ∀ content,
        after.readBytes (Path.join folder other) = .ok content
          ↔ tree.readBytes (Path.join folder other) = .ok content := by
  obtain ⟨origin, goal, hreplaceable⟩ := replaceable_of_replace h
  refine ⟨_, hreplaceable.replace_eq parts, hreplaceable.readBytes_self _, ?_⟩
  intro other hother hne hnew content
  refine hreplaceable.readBytes_other _ fun place hplace => ?_
  -- the three places end with three different names
  obtain ⟨front, hfront, hpath⟩ := Path.join_eq folder hname
  have hgoal : goal.getLast? = some name :=
    getLast?_of_locate hfront hname (hpath ▸ hreplaceable.goal_eq)
  have horigin : origin.getLast? = some (temporaryName name) := by
    obtain ⟨beside, hbeside, htemp⟩ :=
      Path.join_eq (Path.parent (Path.join folder name)) htemporary
    have hlocate := locate_of_locateNew hreplaceable.origin_new hreplaceable.origin_name
    have hbase : Path.base (Path.join folder name) = name := by
      rw [hpath, Path.base_append hfront hname]
    have heq : temporaryPath (Path.join folder name) = beside ++ temporaryName name := by
      rw [temporaryPath, hbase, ← htemp, temporaryName]
    exact getLast?_of_locate hbeside htemporary (heq ▸ hlocate)
  have hlast : place.getLast? = some other := by
    obtain ⟨front, hfront, hpath⟩ := Path.join_eq folder hother
    exact getLast?_of_locate hfront hother (hpath ▸ hplace)
  constructor
  · rintro rfl
    exact hnew (Option.some.inj (hlast.symm.trans horigin))
  · rintro rfl
    exact hne (Option.some.inj (hlast.symm.trans hgoal))

end FileTree

end Dialogue
