import Dialogue.Command.Schema
import Dialogue.Proofs.TemporaryFiles
import Dialogue.Settings.File

/-!
# All of a file or nothing

What a replacement leaves is described once for success and failure (`leaves_replace`): the folders
stay, no file is left at the temporary path, and every other place but the target's is as it was.
The target holds all parts after a success, and after a failure what it held
(`allOrNothing_replace`).
Saving the settings makes the folders above their file first, and a failed save may leave those
(`Settings.saves_save`).
-/

namespace Dialogue

namespace FileTree

variable {tree after : FileTree} {path : Text} {origin goal : Place}

section Outcome

theorem remove_eq_ok_iff : tree.remove path = .ok after
    ↔ ∃ place content, tree.locate path = .ok place
      ∧ tree.entryAt? place = some (.file content) ∧ after = tree.erase place := by
  unfold remove
  rcases tree.locate path with cause | place
  · simp
  · rcases hentry : tree.entryAt? place with _ | _ | content <;> simp [hentry, eq_comm (a := after)]

theorem status_eq_ok_iff {entry : Entry} : tree.status path = .ok entry
    ↔ ∃ place, tree.locate path = .ok place ∧ tree.entryAt? place = some entry := by
  unfold status
  rcases tree.locate path with cause | place
  · simp
  · rcases hentry : tree.entryAt? place with _ | found <;> simp [hentry]

theorem erase_put (tree : FileTree) (place : Place) (entry : Entry) :
    (tree.put place entry).erase place = tree.erase place := by
  have hfilter : ∀ entries : List (Place × Entry),
      (Table.insertInto place entry entries).filter (fun e => e.1 != place)
        = entries.filter fun e => e.1 != place := by
    intro entries
    induction entries with
    | nil => simp [Table.insertInto]
    | cons first entries ih =>
      by_cases h : first.1 = place
      · simp [Table.insertInto, h]
      · simp [Table.insertInto, h, ih]
  rw [erase, put, erase, Table.insert, hfilter]

/-- After a failure a temporary file is taken away if there is one. -/
theorem abandon_tree (tree : FileTree) (path detail : Text) (e : ReplaceError) :
    (abandon tree path detail e).tree
      = (tree.remove (temporaryPath path)).toOption.getD tree := by
  unfold abandon
  simp only []
  by_cases h : tree.contains (temporaryPath path) = true
  · rw [if_pos h]
    rcases tree.remove (temporaryPath path) with cause | cleaned <;> rfl
  · rw [if_neg h]
    rcases hremove : tree.remove (temporaryPath path) with cause | cleaned
    · rfl
    · obtain ⟨place, content, hplace, hentry, -⟩ := remove_eq_ok_iff.1 hremove
      have hstatus := status_eq_ok_iff.2 ⟨place, hplace, hentry⟩
      simp [contains, hstatus, Except.isOk, Except.toBool] at h

theorem endsInSlash_temporaryPath (path : Text) : endsInSlash (temporaryPath path) = false := by
  obtain ⟨front, -, -, -, -, htemporary⟩ := exists_front path
  have hlast : temporaryPath path = front ++ '.' :: (Path.base path ++ ".tm") ++ ['p'] := by
    rw [htemporary, temporaryName]
    simp
  rw [endsInSlash, hlast, List.getLast?_concat]
  rfl

theorem locateNew_eq_ok_iff (hslash : endsInSlash path = false) :
    tree.locateNew path = .ok goal ↔ tree.locate path = .ok goal := by
  refine ⟨fun h => locate_of_locateNew h hslash, fun h => ?_⟩
  obtain ⟨-, hnull, hshort, -⟩ := locate_eq_ok_iff.1 h
  have hpath : Path.holdsNull path = false := by simpa [Path.holdsNull] using hnull
  rw [locateNew, hpath, hshort, trimSlashes_of_endsInSlash hslash]
  exact h

/-- The temporary file is written where its place is that of no folder. -/
theorem write_temporary_eq_ok_iff {content : Bytes} :
    tree.write (temporaryPath path) content = .ok after
      ↔ ∃ origin, tree.locate (temporaryPath path) = .ok origin
        ∧ tree.entryAt? origin ≠ some .folder ∧ after = tree.put origin (.file content) := by
  rw [write_eq_ok_iff]
  have hslash := endsInSlash_temporaryPath path
  simp only [locateNew_eq_ok_iff hslash, hslash, true_and]

theorem abandon_put (horigin : tree.locate (temporaryPath path) = .ok origin)
    (hfree : tree.entryAt? origin ≠ some .folder) (content : Bytes) (detail : Text)
    (e : ReplaceError) :
    (abandon (tree.put origin (.file content)) path detail e).tree = tree.erase origin := by
  have hentry : (tree.put origin (.file content)).entryAt? origin = some (.file content) := by
    rw [entryAt?_put (ne_nil_of_entryAt? hfree), if_pos rfl]
  have hremove : (tree.put origin (.file content)).remove (temporaryPath path)
      = .ok (tree.erase origin) :=
    remove_eq_ok_iff.2 ⟨origin, content, (sameFolders_put hfree content).locate.2 horigin, hentry,
      (erase_put tree origin _).symm⟩
  rw [abandon_tree, hremove]
  rfl

/-- What a replacement that fails leaves: the tree as it was, or without a file that an earlier
replacement left at the temporary path. -/
theorem tree_of_error {parts : List Text} {reason : Option Text} {e : ReplaceError}
    (h : (tree.replace path parts reason).result = .error e) :
    ((tree.replace path parts reason).tree = tree
        ∧ ∀ content, tree.readBytes (temporaryPath path) ≠ .ok content)
      ∨ ∃ origin, tree.locate (temporaryPath path) = .ok origin
        ∧ tree.entryAt? origin ≠ some .folder
        ∧ (tree.replace path parts reason).tree = tree.erase origin := by
  rcases hwrite : tree.write (temporaryPath path) (Utf8.encode parts.flatten) with cause | written
  · have hnone : ∀ content, tree.readBytes (temporaryPath path) ≠ .ok content := by
      intro content hread
      obtain ⟨place, hplace, hentry⟩ := readBytes_eq_ok_iff.1 hread
      have hok : tree.write (temporaryPath path) (Utf8.encode parts.flatten) = .ok _ :=
        write_temporary_eq_ok_iff.2 ⟨place, hplace, by simp [hentry], rfl⟩
      exact nomatch hwrite.symm.trans hok
    refine .inl ⟨?_, hnone⟩
    simp only [replace, hwrite, abandon_tree]
    rcases hremove : tree.remove (temporaryPath path) with cause | cleaned
    · rfl
    · obtain ⟨place, content, hplace, hentry, -⟩ := remove_eq_ok_iff.1 hremove
      exact absurd (readBytes_eq_ok_iff.2 ⟨place, hplace, hentry⟩) (hnone content)
  · obtain ⟨origin, horigin, hfree, rfl⟩ := write_temporary_eq_ok_iff.1 hwrite
    refine .inr ⟨origin, horigin, hfree, ?_⟩
    rcases reason with _ | reason
    · rcases hmove : (tree.put origin (.file (Utf8.encode parts.flatten))).move
          (temporaryPath path) path with cause | moved
      · simp only [replace, hwrite, hmove, abandon_put horigin hfree]
      · simp [replace, hwrite, hmove] at h
    · simp only [replace, hwrite, abandon_put horigin hfree]

end Outcome

/-- Two paths lead to one place. -/
def Meets (tree : FileTree) (first second : Text) : Prop :=
  ∃ place, tree.locate first = .ok place ∧ tree.locate second = .ok place

/-- Where a replacement fails, and with which error: where the temporary file is opened, between the
parts, or where it is moved. -/
inductive Fails (tree : FileTree) (path : Text) (parts : List Text) :
    Option Text → ReplaceError → Prop
  | opening {reason : Option Text} {fault : Fault}
    (h : tree.write (temporaryPath path) (Utf8.encode parts.flatten) = .error fault) :
    Fails tree path parts reason (.fault fault)
  | writing {reason : Text} {written : FileTree}
    (h : tree.write (temporaryPath path) (Utf8.encode parts.flatten) = .ok written) :
    Fails tree path parts (some reason) (.interrupted reason)
  | moving {fault : Fault} {written : FileTree}
    (h : tree.write (temporaryPath path) (Utf8.encode parts.flatten) = .ok written)
    (hmove : written.move (temporaryPath path) path = .error fault) :
    Fails tree path parts none (.fault fault)

/-- A file is replaced as a whole or stays as it is, and no temporary file is left. -/
structure AllOrNothing (tree : FileTree) (path : Text) (parts : List Text) (reason : Option Text)
    (outcome : Replacement) : Prop where
  done_iff : outcome.result = .ok ()
    ↔ reason = none ∧ ∃ origin goal, tree.Replaceable path origin goal
  failed_iff : ∀ e, outcome.result = .error e ↔ tree.Fails path parts reason e
  written : outcome.result = .ok () →
    outcome.tree.readBytes path = .ok (Utf8.encode parts.flatten)
  kept : ∀ e, outcome.result = .error e → outcome.tree.status path = tree.status path
  tidy : ∀ content, outcome.tree.readBytes (temporaryPath path) ≠ .ok content
  elsewhere : ∀ other, ¬ tree.Meets other path → ¬ tree.Meets other (temporaryPath path) →
    ∀ entry, outcome.tree.status other = .ok entry ↔ tree.status other = .ok entry

section Outcome

variable {parts : List Text} {reason : Option Text}

/-- What is logged does not matter. -/
theorem AllOrNothing.congr {outcome other : Replacement}
    (h : AllOrNothing tree path parts reason outcome) (hresult : other.result = outcome.result)
    (htree : other.tree = outcome.tree) : AllOrNothing tree path parts reason other := by
  obtain ⟨left, log, result⟩ := other
  obtain rfl : left = outcome.tree := htree
  obtain rfl : result = outcome.result := hresult
  exact ⟨h.done_iff, h.failed_iff, h.written, h.kept, h.tidy, h.elsewhere⟩

theorem result_eq_error_iff (e : ReplaceError) :
    (tree.replace path parts reason).result = .error e ↔ tree.Fails path parts reason e := by
  constructor
  · intro h
    rcases hwrite : tree.write (temporaryPath path) (Utf8.encode parts.flatten) with cause | written
    · simp only [replace, hwrite, abandon_result, Except.error.injEq] at h
      exact h ▸ .opening hwrite
    rcases reason with _ | reason
    · rcases hmove : written.move (temporaryPath path) path with cause | moved
      · simp only [replace, hwrite, hmove, abandon_result, Except.error.injEq] at h
        exact h ▸ .moving hwrite hmove
      · simp only [replace, hwrite, hmove] at h
        cases h
    · simp only [replace, hwrite, abandon_result, Except.error.injEq] at h
      exact h ▸ .writing hwrite
  · intro h
    cases h with
    | opening h => simp only [replace, h, abandon_result]
    | writing h => simp only [replace, h, abandon_result]
    | moving h hmove => simp only [replace, h, hmove, abandon_result]

theorem result_eq_ok_iff : (tree.replace path parts reason).result = .ok ()
    ↔ reason = none ∧ ∃ origin goal, tree.Replaceable path origin goal := by
  constructor
  · intro h
    rcases reason with _ | reason
    · exact ⟨rfl, replaceable_of_replace h⟩
    · rcases hwrite : tree.write (temporaryPath path) (Utf8.encode parts.flatten)
          with cause | written <;>
        simp [replace, hwrite, abandon_result] at h
  · rintro ⟨rfl, origin, goal, h⟩
    rw [h.replace_eq parts]

/-- What a replacement leaves: the same folders, no file at the temporary path, and everything as it
was at places other than that and the target's. -/
structure Leaves (tree : FileTree) (path : Text) (after : FileTree) : Prop where
  folders : SameFolders tree after
  tidy : ∀ place, tree.locate (temporaryPath path) = .ok place →
    ∀ content, after.entryAt? place ≠ some (.file content)
  beside : ∀ place, tree.locate path ≠ .ok place → tree.locate (temporaryPath path) ≠ .ok place →
    after.entryAt? place = tree.entryAt? place

theorem leaves_self (hnone : ∀ content, tree.readBytes (temporaryPath path) ≠ .ok content) :
    Leaves tree path tree where
  folders := ⟨rfl, fun _ => Iff.rfl⟩
  tidy place hplace content hentry := hnone content (readBytes_eq_ok_iff.2 ⟨place, hplace, hentry⟩)
  beside _ _ _ := rfl

theorem leaves_erase (horigin : tree.locate (temporaryPath path) = .ok origin)
    (hfree : tree.entryAt? origin ≠ some .folder) : Leaves tree path (tree.erase origin) := by
  have hat : ∀ place, (tree.erase origin).entryAt? place
      = if place = origin then none else tree.entryAt? place :=
    entryAt?_erase (ne_nil_of_entryAt? hfree)
  refine ⟨sameFolders_erase hfree, fun place hplace content => ?_, fun place _ hplace => ?_⟩
  · rw [hat, if_pos (Except.ok.inj (hplace.symm.trans horigin))]
    simp
  · rw [hat, if_neg fun heq : place = origin => hplace (heq ▸ horigin)]

theorem leaves_moved (h : tree.Replaceable path origin goal) (content : Bytes) :
    Leaves tree path (tree.moved origin goal content) := by
  have horigin := locate_of_locateNew h.origin_new h.origin_name
  refine ⟨h.sameFolders content, fun place hplace found => ?_, fun place htarget hplace => ?_⟩
  · obtain rfl : place = origin := Except.ok.inj (hplace.symm.trans horigin)
    rw [h.entryAt?_moved, if_neg (ne_of_locate horigin h.goal_eq).symm, if_pos rfl]
    simp
  · rw [h.entryAt?_moved, if_neg fun heq : place = goal => htarget (heq ▸ h.goal_eq),
      if_neg fun heq : place = origin => hplace (heq ▸ horigin)]

theorem leaves_replace (tree : FileTree) (path : Text) (parts : List Text)
    (reason : Option Text) : Leaves tree path (tree.replace path parts reason).tree := by
  rcases hresult : (tree.replace path parts reason).result with e | _
  · rcases tree_of_error hresult with ⟨htree, hnone⟩ | ⟨origin, horigin, hfree, htree⟩
    · exact htree.symm ▸ leaves_self hnone
    · exact htree.symm ▸ leaves_erase horigin hfree
  · obtain ⟨rfl, origin, goal, hreplaceable⟩ := result_eq_ok_iff.1 hresult
    rw [hreplaceable.replace_eq parts]
    exact leaves_moved hreplaceable _

theorem status_of_error {e : ReplaceError}
    (h : (tree.replace path parts reason).result = .error e) :
    (tree.replace path parts reason).tree.status path = tree.status path := by
  rcases tree_of_error h with ⟨htree, -⟩ | ⟨origin, horigin, hfree, htree⟩
  · rw [htree]
  · unfold status
    rw [htree, locate_eq_of_sameFolders horigin (sameFolders_erase hfree)]
    rcases hgoal : tree.locate path with cause | goal
    · rfl
    · simp only [entryAt?_erase (ne_nil_of_entryAt? hfree), if_neg (ne_of_locate horigin hgoal)]

theorem allOrNothing_replace (tree : FileTree) (path : Text) (parts : List Text)
    (reason : Option Text) :
    AllOrNothing tree path parts reason (tree.replace path parts reason) where
  done_iff := result_eq_ok_iff
  failed_iff := result_eq_error_iff
  written h := by
    obtain ⟨rfl, origin, goal, hreplaceable⟩ := result_eq_ok_iff.1 h
    rw [hreplaceable.replace_eq parts]
    exact hreplaceable.readBytes_self _
  kept _ h := status_of_error h
  tidy content h := by
    have hleaves := leaves_replace tree path parts reason
    obtain ⟨place, hplace, hentry⟩ := readBytes_eq_ok_iff.1 h
    exact hleaves.tidy place (hleaves.folders.locate.1 hplace) content hentry
  elsewhere other hother htemporary entry := by
    have hleaves := leaves_replace tree path parts reason
    simp only [status_eq_ok_iff, hleaves.folders.locate]
    refine exists_congr fun place => and_congr_right fun hplace => ?_
    rw [hleaves.beside place (fun h => hother ⟨place, hplace, h⟩)
      fun h => htemporary ⟨place, hplace, h⟩]

end Outcome

/-- A tree with more folders. -/
structure Grows (tree after : FileTree) : Prop where
  home : after.home = tree.home
  kept : ∀ place entry, tree.entryAt? place = some entry → after.entryAt? place = some entry
  files : ∀ place content, after.entryAt? place = some (.file content) →
    tree.entryAt? place = some (.file content)

section Folders

theorem Grows.refl (tree : FileTree) : Grows tree tree :=
  ⟨rfl, fun _ _ h => h, fun _ _ h => h⟩

theorem Grows.trans {last : FileTree} (h : Grows tree after) (hlast : Grows after last) :
    Grows tree last :=
  ⟨hlast.home.trans h.home,
    fun place entry hentry => hlast.kept place entry (h.kept place entry hentry),
    fun place content hfile => h.files place content (hlast.files place content hfile)⟩

theorem Grows.walk (h : Grows tree after) : ∀ {names : List Text} {place goal : Place},
    tree.walk place names = .ok goal → after.walk place names = .ok goal
  | [], _, _, hwalk => hwalk
  | _ :: _, _, _, hwalk => by
    obtain ⟨hfolder, hname, hrest⟩ := walk_eq_ok_iff.1 hwalk
    exact walk_eq_ok_iff.2 ⟨h.kept _ _ hfolder, hname, h.walk hrest⟩

theorem Grows.status (h : Grows tree after) {entry : Entry}
    (hstatus : tree.status path = .ok entry) : after.status path = .ok entry := by
  obtain ⟨place, hplace, hentry⟩ := status_eq_ok_iff.1 hstatus
  obtain ⟨hne, hnull, hshort, hwalk⟩ := locate_eq_ok_iff.1 hplace
  have hroot : after.root path = tree.root path := by rw [root, root, h.home]
  exact status_eq_ok_iff.2 ⟨place, locate_eq_ok_iff.2 ⟨hne, hnull, hshort, hroot ▸ h.walk hwalk⟩,
    h.kept place entry hentry⟩

theorem grows_makeFolder (h : tree.makeFolder path = .ok after) : Grows tree after := by
  unfold makeFolder at h
  rcases hplace : tree.locateNew path with cause | place
  · simp [hplace] at h
  rcases hentry : tree.entryAt? place with _ | entry
  · obtain rfl : tree.put place .folder = after := by simpa [hplace, hentry] using h
    have hfree : tree.entryAt? place ≠ some .folder := by simp [hentry]
    have hat : ∀ other, (tree.put place .folder).entryAt? other
        = if other = place then some .folder else tree.entryAt? other :=
      entryAt?_put (ne_nil_of_entryAt? hfree) _
    refine ⟨rfl, fun other entry hother => ?_, fun other content hother => ?_⟩
    · have hne : other ≠ place := fun heq => by simp [heq, hentry] at hother
      rw [hat, if_neg hne, hother]
    · rw [hat] at hother
      split at hother
      · cases hother
      · exact hother
  · simp [hplace, hentry] at h

theorem grows_ensureFolder (tree : FileTree) (path : Text) :
    Grows tree (tree.ensureFolder path).1 := by
  unfold ensureFolder
  split
  · exact grows_makeFolder ‹_›
  · exact .refl tree

theorem grows_makeFoldersUpTo : ∀ (depth : Nat) (tree : FileTree) (path : Text),
    Grows tree (makeFoldersUpTo depth tree path).1
  | 0, tree, path => grows_ensureFolder tree path
  | depth + 1, tree, path => by
    rw [makeFoldersUpTo]
    generalize (if (Path.base path).isEmpty then
        (Path.parent (Path.parent path), Path.base (Path.parent path))
      else (Path.parent path, Path.base path)) = parts
    obtain ⟨above, name⟩ := parts
    have habove := grows_makeFoldersUpTo depth tree above
    simp only []
    split
    · exact grows_ensureFolder tree path
    · rcases hmade : makeFoldersUpTo depth tree above with ⟨made, cause | _⟩ <;>
        rw [hmade] at habove
      · exact habove
      · simp only []
        split
        · exact habove
        · exact habove.trans (grows_ensureFolder made path)

theorem grows_makeFolders (tree : FileTree) (path : Text) : Grows tree (tree.makeFolders path).1 :=
  grows_makeFoldersUpTo path.length tree path

end Folders

end FileTree

namespace Settings

open FileTree (Grows)

/-- What the log says of a save that the system refused. -/
def saveFailed : Log.Entry := ⟨.warning, "Failed to save settings"⟩

/-- A save fails where it says so in its log, or with an error. -/
def Saved.Fails (saved : Saved) : Prop := saveFailed ∈ saved.log ∨ ∃ e, saved.result = .error e

theorem Saved.ofError_tree (tree : FileTree) (log : List Log.Entry) (e : FileTree.ReplaceError) :
    (Saved.ofError tree log e).tree = tree := by
  unfold Saved.ofError
  split <;> rfl

theorem Saved.fails_ofError (tree : FileTree) (log : List Log.Entry) (e : FileTree.ReplaceError) :
    (Saved.ofError tree log e).Fails := by
  unfold Saved.ofError
  split
  · exact .inl (List.mem_append_right log (List.mem_singleton.2 rfl))
  · exact .inr ⟨e, rfl⟩

theorem Saved.ofError_raised (tree : FileTree) (log : List Log.Entry) (e : FileTree.ReplaceError)
    (cause : Cause) : (Saved.ofError tree log e).result ≠ .error (.fault (.refused cause)) := by
  unfold Saved.ofError
  split
  · simp
  · rename_i hother
    simpa using hother cause

/-- A save that succeeds leaves the settings in the file; one that fails leaves what stands at the
path, and makes no file anywhere. What the system refuses is no error of the save. -/
structure Saves (tree : FileTree) (path : Text) (fields : Fields) (outcome : Saved) : Prop where
  written : ¬ outcome.Fails →
    outcome.tree.readBytes path = .ok (Utf8.encode ((Json.object fields).pretty .ascii))
  kept : outcome.Fails → ∀ entry, tree.status path = .ok entry →
    outcome.tree.status path = .ok entry
  unmade : outcome.Fails → ∀ place content,
    outcome.tree.entryAt? place = some (.file content) → tree.entryAt? place = some (.file content)
  raised : ∀ cause, outcome.result ≠ .error (.fault (.refused cause))

theorem saves_save (room : Nat) (tree : FileTree) (path : Text) (fields : Fields) :
    Saves tree path fields (save room tree path fields) := by
  have hgrows := FileTree.grows_makeFolders tree
    (if (Path.parent path).isEmpty then ['.'] else Path.parent path)
  unfold save
  simp only []
  generalize tree.makeFolders _ = folders at hgrows ⊢
  obtain ⟨made, fault | _⟩ := folders
  · have hfails := Saved.fails_ofError made [] (.fault fault)
    refine ⟨fun h => absurd hfails h, ?_, ?_, Saved.ofError_raised made [] _⟩ <;>
      rw [Saved.ofError_tree]
    · exact fun _ _ h => hgrows.status h
    · exact fun _ => hgrows.files
  simp only []
  generalize ((Json.object fields).fault? room).map Json.WriteError.message = reason
  have hreplace :=
    FileTree.allOrNothing_replace made path [(Json.object fields).pretty .ascii] reason
  rcases hresult : (made.replace path [(Json.object fields).pretty .ascii] reason).result with e | _
  · have hfails := Saved.fails_ofError
      (made.replace path [(Json.object fields).pretty .ascii] reason).tree
      (made.replace path [(Json.object fields).pretty .ascii] reason).log e
    refine ⟨fun h => absurd hfails h, ?_, ?_, Saved.ofError_raised _ _ e⟩ <;>
      rw [Saved.ofError_tree]
    · intro _ entry hentry
      exact (hreplace.kept e hresult).trans (hgrows.status hentry)
    · intro _ place content hfile
      refine hgrows.files place content ?_
      rcases FileTree.tree_of_error hresult with ⟨htree, -⟩ | ⟨origin, -, hfree, htree⟩
      · exact htree ▸ hfile
      · rw [htree, FileTree.entryAt?_erase (FileTree.ne_nil_of_entryAt? hfree)] at hfile
        split at hfile
        · cases hfile
        · exact hfile
  · obtain ⟨rfl, origin, goal, hreplaceable⟩ := FileTree.result_eq_ok_iff.1 hresult
    have hlog : (made.replace path [(Json.object fields).pretty .ascii] none).log = [] := by
      rw [hreplaceable.replace_eq]
    have hwritten := hreplace.written hresult
    rw [List.flatten_singleton] at hwritten
    simp only [hlog]
    have hdone : ¬ Saved.Fails
        ⟨(made.replace path [(Json.object fields).pretty .ascii] none).tree, [], .ok ()⟩ := by
      simp [Saved.Fails]
    exact ⟨fun _ => hwritten, fun h => absurd h hdone, fun h => absurd h hdone, by simp⟩

end Settings

namespace Schema

theorem saveHints_result_tree (room : Nat) (tree : FileTree) (schema : Schema) (path : Text) :
    (saveHints room tree schema path).result
        = (tree.replace path [schema.hintList.pretty .unicode] (schema.saveFault? room)).result
      ∧ (saveHints room tree schema path).tree
        = (tree.replace path [schema.hintList.pretty .unicode] (schema.saveFault? room)).tree := by
  unfold saveHints
  simp only []
  split <;> simp [*]

end Schema

/-- Files are written as a whole or stay as they are, for every text, folder tree, path and point of
failure; so are the hints and the settings, also where they cannot be written to their end. -/
theorem replacements_allOrNothing (tree : FileTree) (path : Text) :
    (∀ parts reason,
      tree.AllOrNothing path parts reason (tree.replace path parts reason))
    ∧ (∀ room (schema : Schema), tree.AllOrNothing path [schema.hintList.pretty .unicode]
      (schema.saveFault? room) (Schema.saveHints room tree schema path))
    ∧ ∀ room fields, Settings.Saves tree path fields (Settings.save room tree path fields) := by
  refine ⟨tree.allOrNothing_replace path, fun room schema => ?_,
    fun room => Settings.saves_save room tree path⟩
  obtain ⟨hresult, htree⟩ := Schema.saveHints_result_tree room tree schema path
  exact (tree.allOrNothing_replace path _ _).congr hresult htree

end Dialogue
