import Dialogue.Proofs.Replacing
import Mathlib.Data.List.DropRight

/-!
# The temporary file beside a file

A path and the path of its temporary file go through one folder (`exists_front`), in which the last
name of the path and the temporary one are looked up (`exists_folder_of_locate`). So the two lead to
two places (`ne_of_locate`), also where the path ends with a slash or with dots, and where the
temporary file has a place, the path is looked up alike in every tree with the same folders
(`locate_eq_of_sameFolders`).
-/

namespace Dialogue

namespace Path

theorem head_append_base (path : Text) : head path ++ base path = path :=
  List.rdropWhile_append_rtakeWhile (p := (· != '/'))

theorem slash_not_mem_base (path : Text) : '/' ∉ base path := by
  intro h
  have hkept := List.mem_rtakeWhile_imp (p := (· != '/')) (l := path) h
  simp at hkept

theorem isFront_head (path : Text) : IsFront (head path) := by
  by_cases h : head path = []
  · exact .inl h
  · have hstop : ¬ ((head path).getLast h != '/') = true :=
      List.rdropWhile_last_not (· != '/') path h
    have hlast : (head path).getLast h = '/' := by simpa using hstop
    exact .inr ⟨(head path).dropLast, hlast ▸ (List.dropLast_append_getLast h).symm⟩

/-- All slashes at the end of a path are taken off, unless it has nothing else. -/
theorem exists_trimSlashes (path : Text) : trimSlashes path = path ∧ (∀ c ∈ path, c = '/')
    ∨ ∃ n, path = trimSlashes path ++ List.replicate n '/' ∧ trimSlashes path ≠ []
      ∧ (trimSlashes path).getLast? ≠ some '/' := by
  by_cases h : path.all (· == '/') = true
  · rw [trimSlashes, if_pos h]
    exact .inl ⟨rfl, by simpa using h⟩
  · have htrim : trimSlashes path = path.rdropWhile (· == '/') := if_neg h
    have hne : path.rdropWhile (· == '/') ≠ [] := by
      rw [Ne, List.rdropWhile_eq_nil_iff]
      simpa using h
    have hslashes : path.rtakeWhile (· == '/')
        = List.replicate (path.rtakeWhile (· == '/')).length '/' :=
      List.eq_replicate_iff.2 ⟨rfl, fun c hc => by simpa using List.mem_rtakeWhile_imp hc⟩
    have hlast := List.rdropWhile_last_not (· == '/') path hne
    refine .inr ⟨(path.rtakeWhile (· == '/')).length, ?_, htrim ▸ hne, ?_⟩
    · rw [htrim, ← hslashes, List.rdropWhile_append_rtakeWhile]
    · rw [htrim, List.getLast?_eq_some_getLast hne]
      simpa using hlast

theorem join_of_name (first : Text) {name : Text} (hname : isAbsolute name = false) :
    join first name = if first = [] ∨ first.getLast? = some '/' then first ++ name
      else first ++ '/' :: name := by
  rw [join, hname]
  simp

end Path

namespace FileTree

variable {path : Text}

/-- A path and its temporary one go through one folder; the path may have more slashes behind it. -/
theorem exists_front (path : Text) : ∃ front extra, Path.IsFront front ∧ (front = [] → extra = 0)
    ∧ path = front ++ (List.replicate extra '/' ++ Path.base path)
    ∧ temporaryPath path = front ++ temporaryName (Path.base path) := by
  have hpath := Path.head_append_base path
  have hname : Path.isAbsolute (temporaryName (Path.base path)) = false := by
    simp [Path.isAbsolute, temporaryName]
  have htemporary : temporaryPath path
      = Path.join (Path.trimSlashes (Path.head path)) (temporaryName (Path.base path)) := rfl
  rw [Path.join_of_name _ hname] at htemporary
  rcases Path.isFront_head path with hnil | ⟨start, hstart⟩
  · rw [hnil] at hpath htemporary
    exact ⟨[], 0, .inl rfl, fun _ => rfl, hpath.symm, htemporary⟩
  rcases Path.exists_trimSlashes (Path.head path) with ⟨htrim, -⟩ | ⟨n, hsplit, hne, hlast⟩
  · have hslash : (Path.head path).getLast? = some '/' := by rw [hstart, List.getLast?_concat]
    rw [htrim, if_pos (.inr hslash)] at htemporary
    exact ⟨Path.head path, 0, Path.isFront_head path, fun _ => rfl, hpath.symm, htemporary⟩
  · rw [if_neg (by simp [hne, hlast])] at htemporary
    generalize Path.trimSlashes (Path.head path) = trimmed at hsplit hne hlast htemporary
    -- the head ends with a slash, so there is one to spare
    rcases n with _ | n
    · rw [List.replicate_zero, List.append_nil] at hsplit
      rw [← hsplit, hstart, List.getLast?_concat] at hlast
      exact absurd rfl hlast
    · refine ⟨trimmed ++ ['/'], n, .inr ⟨trimmed, rfl⟩, fun h => by simp at h, ?_, ?_⟩
      · conv_lhs => rw [← hpath, hsplit]
        simp [List.replicate_succ]
      · rw [htemporary]
        simp

theorem walk_append {tree : FileTree} :
    ∀ (names : List Text) {more : List Text} {place goal : Place},
      tree.walk place (names ++ more) = .ok goal
        ↔ ∃ middle, tree.walk place names = .ok middle ∧ tree.walk middle more = .ok goal
  | [], more, place, goal => by simp [walk]
  | name :: names, more, place, goal => by
    simp only [List.cons_append, walk_eq_ok_iff, walk_append names]
    constructor
    · rintro ⟨hfolder, hname, middle, hmiddle, hgoal⟩
      exact ⟨middle, ⟨hfolder, hname, hmiddle⟩, hgoal⟩
    · rintro ⟨middle, ⟨hfolder, hname, hmiddle⟩, hgoal⟩
      exact ⟨hfolder, hname, middle, hmiddle, hgoal⟩

/-- Slashes behind each other lead to the same folder. -/
theorem walk_replicate {tree : FileTree} {place : Place} (h : tree.entryAt? place = some .folder) :
    ∀ n : Nat, tree.walk place (List.replicate n []) = .ok place
  | 0 => rfl
  | n + 1 => by
    have hempty : isLongerThan maxName [] = false := by decide
    rw [List.replicate_succ, walk_eq_ok_iff]
    exact ⟨h, hempty, walk_replicate h n⟩

end FileTree

namespace Text

theorem exists_splitAt_front {front : Text} (h : Path.IsFront front) :
    ∃ names, ∀ rest, splitAt '/' (front ++ rest) = names ++ splitAt '/' rest := by
  rcases h with rfl | ⟨start, rfl⟩
  · exact ⟨[], fun _ => rfl⟩
  · refine ⟨splitAt '/' start, fun rest => ?_⟩
    rw [List.append_assoc, List.singleton_append, splitAt_append]

theorem splitAt_replicate {name : Text} (h : '/' ∉ name) : ∀ n : Nat,
    splitAt '/' (List.replicate n '/' ++ name) = List.replicate n [] ++ [name]
  | 0 => splitAt_of_not_mem h
  | n + 1 => by
    rw [List.replicate_succ, List.cons_append, splitAt, if_pos rfl, splitAt_replicate h n]
    rfl

end Text

namespace FileTree

variable {tree after : FileTree} {path : Text} {origin goal : Place}

theorem isLongerThan_temporaryName {name : Text}
    (h : isLongerThan maxName (temporaryName name) = false) :
    isLongerThan maxName name = false := by
  have hbytes : Utf8.encode (temporaryName name)
      = Utf8.encode ['.'] ++ (Utf8.encode name ++ Utf8.encode ".tmp") := by
    simp [temporaryName, Utf8.encode]
  simp only [isLongerThan, hbytes, List.length_append, decide_eq_false_iff_not] at h ⊢
  omega

theorem isName_temporaryName {name : Text} (h : '/' ∉ name) : Path.IsName (temporaryName name) := by
  have hlong : 5 ≤ (temporaryName name).length := by simp [temporaryName]
  refine ⟨?_, ?_, ?_, by simp [temporaryName, h]⟩ <;>
    exact fun heq => absurd (congrArg List.length heq ▸ hlong) (by decide)

theorem root_append {front : Text} (h : front ≠ []) (rest other : Text) :
    tree.root (front ++ rest) = tree.root (front ++ other) := by
  obtain ⟨c, front, rfl⟩ := List.exists_cons_of_ne_nil h
  rfl

theorem root_of_not_mem {name : Text} (h : '/' ∉ name) : tree.root name = tree.home := by
  have hrelative : Path.isAbsolute name = false := by
    rcases name with _ | ⟨c, name⟩
    · rfl
    · have hc : c ≠ '/' := fun hc => h (by simp [hc])
      simpa [Path.isAbsolute] using hc
  rw [root, hrelative]
  rfl

/-- The temporary file lies in the folder in which the last name of the path is looked up. -/
theorem exists_folder_of_locate (h : tree.locate (temporaryPath path) = .ok origin) :
    ∃ folder, origin = folder ++ [temporaryName (Path.base path)]
      ∧ tree.walk (tree.root path) (Text.splitAt '/' path)
        = .ok (enter folder (Path.base path)) := by
  obtain ⟨front, extra, hfront, hextra, hpath, htemporary⟩ := exists_front path
  obtain ⟨names, hnames⟩ := Text.exists_splitAt_front hfront
  have hbase := Path.slash_not_mem_base path
  generalize Path.base path = base at *
  have hname := isName_temporaryName hbase
  have hroot : tree.root (temporaryPath path) = tree.root path := by
    rw [htemporary, hpath]
    by_cases hnil : front = []
    · rw [hnil, hextra hnil]
      exact (root_of_not_mem hname.no_slash).trans (root_of_not_mem hbase).symm
    · exact root_append hnil _ _
  have hsplit : Text.splitAt '/' path = names ++ (List.replicate extra [] ++ [base]) := by
    rw [hpath, hnames, Text.splitAt_replicate hbase]
  obtain ⟨-, -, -, hwalk⟩ := locate_eq_ok_iff.1 h
  rw [hroot, htemporary, hnames, Text.splitAt_of_not_mem hname.no_slash] at hwalk
  obtain ⟨folder, hfolder, hlast⟩ := (walk_append names).1 hwalk
  obtain ⟨hentry, hlong, horigin⟩ := walk_eq_ok_iff.1 hlast
  refine ⟨folder, ?_, ?_⟩
  · rw [← enter_of_isName hname folder]
    exact (Except.ok.inj horigin).symm
  · rw [hsplit, walk_append]
    refine ⟨folder, hfolder, (walk_append _).2 ⟨folder, walk_replicate hentry extra, ?_⟩⟩
    exact walk_eq_ok_iff.2 ⟨hentry, isLongerThan_temporaryName hlong, rfl⟩

/-- The target and the temporary file are at two places. -/
theorem ne_of_locate (horigin : tree.locate (temporaryPath path) = .ok origin)
    (hgoal : tree.locate path = .ok goal) : goal ≠ origin := by
  obtain ⟨folder, rfl, hwalk⟩ := exists_folder_of_locate horigin
  obtain rfl : enter folder (Path.base path) = goal :=
    Except.ok.inj (hwalk.symm.trans (locate_eq_ok_iff.1 hgoal).2.2.2)
  intro heq
  unfold enter at heq
  split at heq
  · simpa using congrArg List.length heq
  split at heq
  · have hlength := congrArg List.length heq
    simp only [List.length_dropLast, List.length_append, List.length_singleton] at hlength
    omega
  · have hname : Path.base path = temporaryName (Path.base path) :=
      (List.cons.inj (List.append_cancel_left heq)).1
    have hlength := congrArg List.length hname
    simp only [temporaryName, List.length_cons, List.length_append] at hlength
    omega

/-- Where the temporary file has a place, the path is looked up alike with the same folders. -/
theorem locate_eq_of_sameFolders (horigin : tree.locate (temporaryPath path) = .ok origin)
    (h : SameFolders tree after) : after.locate path = tree.locate path := by
  obtain ⟨folder, -, hwalk⟩ := exists_folder_of_locate horigin
  have hroot : after.root path = tree.root path := by rw [root, root, h.home]
  have hsame : after.walk (after.root path) (Text.splitAt '/' path)
      = tree.walk (tree.root path) (Text.splitAt '/' path) :=
    (hroot ▸ h.walk.2 hwalk).trans hwalk.symm
  unfold root at hsame
  rw [locate, locate, hsame]

end FileTree

end Dialogue
