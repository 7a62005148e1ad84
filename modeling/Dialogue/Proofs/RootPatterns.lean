import Dialogue.Proofs.AllOrNothing
import Dialogue.Proofs.FolderContents

/-!
# A pattern for everything below a root

A star in front of an ending stands for the names with that ending (`accepts_star`). The pattern for
all of these below a root is read from behind: the last name is looked for in the folders below each
of the folders that the root stands for as a pattern of its own (`expandTo_glob`). A root without
pattern characters stands for itself (`rootFolders_of_plain`).
-/

namespace Dialogue

namespace Pattern

variable {word name : Text}

theorem someSuffix_eq_true_iff {test : Text → Bool} : ∀ {text : Text},
    someSuffix test text = true ↔ ∃ back, back <:+ text ∧ test back = true
  | [] => by simp [someSuffix]
  | c :: text => by
    rw [someSuffix, Bool.or_eq_true, someSuffix_eq_true_iff]
    simp only [List.suffix_cons_iff, or_and_right, exists_or, exists_eq_left]

/-- A text without pattern characters stands for itself. -/
theorem elements_of_plain : ∀ {word : Text}, hasMagic word = false →
    elements word = word.map .exactly
  | [], _ => by simp [elements]
  | c :: word, h => by
    simp only [hasMagic, List.any_cons, Bool.or_eq_false_iff, beq_eq_false_iff_ne] at h
    obtain ⟨⟨⟨hrun, hany⟩, hset⟩, hword⟩ := h
    rw [elements, elements_of_plain (by simpa [hasMagic] using hword), List.map_cons]
    · exact hrun
    · exact hany
    · exact hset

theorem accepts_exactly : ∀ {word name : Text},
    accepts (word.map .exactly) name = true ↔ name = word
  | [], name => by simp [accepts]
  | c :: word, [] => by simp [accepts]
  | c :: word, d :: name => by simp [accepts, Element.accepts, accepts_exactly]

/-- A star in front of a plain text stands for the names that end with it. -/
theorem accepts_star (h : hasMagic word = false) :
    accepts (elements ('*' :: word)) name = true ↔ word <:+ name := by
  rw [elements, elements_of_plain h, accepts, someSuffix_eq_true_iff]
  simp [accepts_exactly]

theorem hasMagic_append (front back : Text) :
    hasMagic (front ++ back) = (hasMagic front || hasMagic back) :=
  List.any_append

end Pattern

namespace Path

variable {path front name : Text}

/-- A name behind a path stands behind the path with its slash. -/
theorem join_eq_append (first : Text) {second : Text} (h : isAbsolute second = false) :
    join first second = join first [] ++ second := by
  rw [join_of_name first h, join_of_name first rfl]
  split_ifs <;> simp

theorem isFront_join_nil (first : Text) : IsFront (join first []) := by
  rw [join_of_name first rfl]
  split_ifs with h
  · rw [List.append_nil]
    exact h.imp_right List.getLast?_eq_some_iff.1
  · exact .inr ⟨first, rfl⟩

theorem join_front (hfront : IsFront front) (h : isAbsolute name = false) :
    join front name = front ++ name := by
  rw [join_of_name front h, if_pos]
  rcases hfront with rfl | ⟨start, rfl⟩
  · exact .inl rfl
  · exact .inr List.getLast?_concat

theorem parent_append (hfront : IsFront front) (hname : IsName name) :
    parent (front ++ name) = trimSlashes front := by
  have hhead := head_append_base (front ++ name)
  rw [base_append hfront hname] at hhead
  rw [parent, List.append_cancel_right hhead]

theorem trimSlashes_concat (hne : path ≠ []) (hlast : path.getLast? ≠ some '/') :
    trimSlashes (path ++ ['/']) = path := by
  obtain ⟨start, c, rfl⟩ := (List.eq_nil_or_concat' path).resolve_left hne
  have hc : c ≠ '/' := by simpa using hlast
  simp [trimSlashes, hc]

theorem trimSlashes_join_nil (root : Text) : trimSlashes (join root []) = trimSlashes root := by
  rw [join_of_name root rfl]
  split_ifs with h
  · rw [List.append_nil]
  · obtain ⟨hne, hlast⟩ := not_or.1 h
    rw [trimSlashes_concat hne hlast, FileTree.trimSlashes_of_endsInSlash]
    simpa [FileTree.endsInSlash] using hlast

theorem trimSlashes_trimSlashes (path : Text) :
    trimSlashes (trimSlashes path) = trimSlashes path := by
  rcases exists_trimSlashes path with ⟨heq, -⟩ | ⟨-, -, -, hlast⟩
  · rw [heq, heq]
  · exact FileTree.trimSlashes_of_endsInSlash (by simpa [FileTree.endsInSlash] using hlast)

theorem trimSlashes_ne_nil (h : path ≠ []) : trimSlashes path ≠ [] := by
  rcases exists_trimSlashes path with ⟨heq, -⟩ | ⟨-, -, hne, -⟩
  · rwa [heq]
  · exact hne

theorem hasMagic_trimSlashes (path : Text) :
    Pattern.hasMagic (trimSlashes path) = Pattern.hasMagic path := by
  rcases exists_trimSlashes path with ⟨heq, -⟩ | ⟨n, heq, -⟩
  · rw [heq]
  · conv_rhs => rw [heq, Pattern.hasMagic_append]
    simp [Pattern.hasMagic]

theorem length_trimSlashes_le (path : Text) : (trimSlashes path).length ≤ path.length := by
  rcases exists_trimSlashes path with ⟨heq, -⟩ | ⟨n, heq, -⟩
  · rw [heq]
  · have hlength := congrArg List.length heq
    rw [List.length_append] at hlength
    omega

theorem length_trimSlashes_lt (hslash : path.getLast? = some '/') (hother : ∃ c ∈ path, c ≠ '/') :
    (trimSlashes path).length < path.length := by
  rcases exists_trimSlashes path with ⟨-, hslashes⟩ | ⟨n, heq, -, hlast⟩
  · obtain ⟨c, hc, hne⟩ := hother
    exact absurd (hslashes c hc) hne
  · rcases n with _ | n
    · rw [List.replicate_zero, List.append_nil] at heq
      rw [← heq] at hlast
      exact absurd hslash hlast
    · have hlength := congrArg List.length heq
      rw [List.length_append, List.length_replicate] at hlength
      omega

/-- The part in front of the last name is shorter, unless the path has nothing but slashes. -/
theorem length_parent_lt (h : Pattern.hasMagic path = true) :
    (parent path).length < path.length := by
  have hsplit := head_append_base path
  have hlength := congrArg List.length hsplit
  rw [List.length_append] at hlength
  change (trimSlashes (head path)).length < path.length
  rcases eq_or_ne (base path) [] with hbase | hbase
  · rw [hbase, List.append_nil] at hsplit
    obtain ⟨c, hc, hmagic⟩ := List.any_eq_true.1 h
    have hother : c ≠ '/' := by
      rintro rfl
      cases hmagic
    rcases isFront_head path with hnil | ⟨start, hstart⟩
    · rw [← hsplit, hnil] at hc
      cases hc
    · have hslash : path.getLast? = some '/' := by
        rw [← hsplit, hstart, List.getLast?_concat]
      rw [hsplit]
      exact length_trimSlashes_lt hslash ⟨c, hc, hother⟩
  · have hle := length_trimSlashes_le (head path)
    have hpos := List.length_pos_of_ne_nil hbase
    omega

end Path

namespace FileTree

variable {tree : FileTree} {root pattern ending : Text}

theorem expandTo_succ (depth : Nat) (foldersOnly : Bool) (hmagic : Pattern.hasMagic pattern = true)
    (hfolder : Path.parent pattern ≠ []) :
    tree.expandTo (depth + 1) foldersOnly pattern
      = (if Pattern.hasMagic (Path.parent pattern) then
            tree.expandTo depth true (Path.parent pattern)
          else [Path.parent pattern]).flatMap
        fun f => (tree.inFolder foldersOnly f (Path.base pattern)).map (Path.join f) := by
  rw [expandTo]
  simp [hmagic, hfolder]

/-- A depth over the length of the pattern is enough. -/
theorem expandTo_depth : ∀ (depth depth' : Nat) (foldersOnly : Bool) {pattern : Text},
    pattern.length < depth → pattern.length < depth' →
      tree.expandTo depth foldersOnly pattern = tree.expandTo depth' foldersOnly pattern
  | depth + 1, depth' + 1, foldersOnly, pattern, h, h' => by
    rw [expandTo, expandTo]
    by_cases hmagic : Pattern.hasMagic pattern = true
    · have hlt := Path.length_parent_lt hmagic
      rw [expandTo_depth depth depth' true (by omega) (by omega)]
    · simp [hmagic]

/-- The folders that a root stands for as a pattern. -/
def rootFolders (tree : FileTree) (root : Text) : List Text :=
  tree.expandTo (root.length + 1) true (Path.trimSlashes root)

theorem isFolder_iff {path : Text} : tree.isFolder path = true
    ↔ ∃ place, tree.locate path = .ok place ∧ tree.entryAt? place = some .folder := by
  rw [← status_eq_ok_iff, isFolder]
  split <;> simp_all

theorem locate_trimSlashes {place : Place} (h : tree.locate root = .ok place)
    (hfolder : tree.entryAt? place = some .folder) :
    tree.locate (Path.trimSlashes root) = .ok place := by
  rcases Path.exists_trimSlashes root with ⟨heq, -⟩ | ⟨n, heq, hne, -⟩
  · rwa [heq]
  generalize Path.trimSlashes root = trimmed at heq hne ⊢
  rcases n with _ | n
  · rwa [heq, List.replicate_zero, List.append_nil] at h
  obtain ⟨-, hnull, hshort, hwalk⟩ := locate_eq_ok_iff.1 h
  have hsplit : Text.splitAt '/' root
      = Text.splitAt '/' trimmed ++ List.replicate (n + 1) [] := by
    have hslashes := Text.splitAt_replicate (List.not_mem_nil (a := '/')) n
    rw [List.append_nil, ← List.replicate_succ'] at hslashes
    rw [heq, List.replicate_succ, Text.splitAt_append, hslashes]
  rw [hsplit, walk_append] at hwalk
  obtain ⟨middle, hmiddle, hrest⟩ := hwalk
  have hentry : tree.entryAt? middle = some .folder := (walk_eq_ok_iff.1 hrest).1
  rw [walk_replicate hentry] at hrest
  obtain rfl : middle = place := Except.ok.inj hrest
  have hroot : tree.root root = tree.root trimmed := by
    rw [heq, root_append hne _ [], List.append_nil]
  refine locate_eq_ok_iff.2 ⟨hne, fun hmem => hnull ?_, ?_, hroot ▸ hmiddle⟩
  · exact heq ▸ List.mem_append_left _ hmem
  · exact isLongerThan_append (heq ▸ hshort)

theorem rootFolders_of_plain (h : Pattern.hasMagic root = false)
    (hroot : tree.isFolder root = true) : tree.rootFolders root = [Path.trimSlashes root] := by
  obtain ⟨place, hplace, hfolder⟩ := isFolder_iff.1 hroot
  have hstatus : tree.status (Path.trimSlashes root) = .ok .folder :=
    status_eq_ok_iff.2 ⟨place, locate_trimSlashes hplace hfolder, hfolder⟩
  have hstands : tree.contains (Path.trimSlashes root) = true := by
    rw [contains, hstatus]
    rfl
  rw [rootFolders, expandTo, Path.hasMagic_trimSlashes, h]
  by_cases hbase : Path.base (Path.trimSlashes root) = []
  · have hhead := Path.head_append_base (Path.trimSlashes root)
    rw [hbase, List.append_nil] at hhead
    have hparent : Path.parent (Path.trimSlashes root) = Path.trimSlashes root := by
      rw [Path.parent, hhead, Path.trimSlashes_trimSlashes]
    simp [hbase, hparent, isFolder, hstatus]
  · simp [hbase, hstands]

theorem inFolder_star (h : Pattern.hasMagic ending = false) (folder : Text) :
    tree.inFolder false folder ('*' :: ending) = tree.matching false folder ('*' :: ending) := by
  have hne : '*' :: ending ≠ anyFolders := by
    intro heq
    rw [(List.cons.inj heq).2] at h
    cases h
  rw [inFolder, if_neg (by simpa using hne)]
  rfl

/-- The paths of what stands below a folder and has an ending. -/
def endingBelow (tree : FileTree) (ending folder : Text) : List Text :=
  (([] :: tree.below true folder).map (Path.join folder)).flatMap fun f =>
    (tree.matching false f ('*' :: ending)).map (Path.join f)

/-- The pattern for everything below a folder with an ending. -/
def endingPattern (ending : Text) : Text := anyFolders ++ '/' :: '*' :: ending

theorem isName_anyFolders : Path.IsName anyFolders := by
  constructor <;> decide

theorem join_anyFolders (root : Text) :
    Path.join root anyFolders = Path.join root [] ++ anyFolders :=
  Path.join_eq_append root rfl

theorem hasMagic_join_anyFolders (root : Text) :
    Pattern.hasMagic (Path.join root anyFolders) = true := by
  rw [join_anyFolders, Pattern.hasMagic_append]
  exact Bool.or_true _

/-- The folders in which the last name of such a pattern is looked for. -/
theorem expandTo_anyFolders (hroot : tree.isFolder root = true) {depth : Nat}
    (hdepth : root.length + 1 < depth) : tree.expandTo depth true (Path.join root anyFolders)
      = (tree.rootFolders root).flatMap fun folder =>
          ([] :: tree.below true folder).map (Path.join folder) := by
  obtain ⟨depth, rfl⟩ : ∃ d, depth = d + 1 := ⟨depth - 1, by omega⟩
  have hne : root ≠ [] := by
    rintro rfl
    cases hroot
  have hfront := Path.isFront_join_nil root
  have hparent : Path.parent (Path.join root anyFolders) = Path.trimSlashes root := by
    rw [join_anyFolders, Path.parent_append hfront isName_anyFolders, Path.trimSlashes_join_nil]
  have hbase : Path.base (Path.join root anyFolders) = anyFolders := by
    rw [join_anyFolders, Path.base_append hfront isName_anyFolders]
  have hroots : (if Pattern.hasMagic (Path.trimSlashes root) then
      tree.expandTo depth true (Path.trimSlashes root) else [Path.trimSlashes root])
        = tree.rootFolders root := by
    have hshort := Path.length_trimSlashes_le root
    rw [Path.hasMagic_trimSlashes]
    split_ifs with h
    · exact expandTo_depth _ _ true (by omega) (by omega)
    · exact (rootFolders_of_plain (by simpa using h) hroot).symm
  have hfolder : Path.parent (Path.join root anyFolders) ≠ [] := by
    rw [hparent]
    exact Path.trimSlashes_ne_nil hne
  rw [expandTo_succ depth true (hasMagic_join_anyFolders root) hfolder, hparent, hbase, hroots]
  rfl

theorem join_endingPattern (root ending : Text) : Path.join root (endingPattern ending)
    = (Path.join root anyFolders ++ ['/']) ++ '*' :: ending := by
  have hpath : Path.join root (endingPattern ending) = Path.join root [] ++ endingPattern ending :=
    Path.join_eq_append root rfl
  rw [hpath, join_anyFolders, endingPattern]
  simp

/-- What the pattern stands for is found below the folders that the root stands for. -/
theorem expandTo_glob (hplain : Pattern.hasMagic ending = false) (hslash : '/' ∉ ending)
    (hroot : tree.isFolder root = true) {depth : Nat}
    (hdepth : (Path.join root (endingPattern ending)).length < depth) :
    tree.expandTo depth false (Path.join root (endingPattern ending))
      = (tree.rootFolders root).flatMap (tree.endingBelow ending) := by
  obtain ⟨depth, rfl⟩ : ∃ d, depth = d + 1 := ⟨depth - 1, by omega⟩
  have hname : Path.IsName ('*' :: ending) := by
    constructor <;> simp [hslash]
  have hne : Path.join root anyFolders ≠ [] := by
    rw [join_anyFolders]
    simp [anyFolders]
  have hlast : (Path.join root anyFolders).getLast? ≠ some '/' := by
    rw [join_anyFolders]
    simp [anyFolders]
  have hparent : Path.parent (Path.join root (endingPattern ending))
      = Path.join root anyFolders := by
    rw [join_endingPattern, Path.parent_append (.inr ⟨_, rfl⟩) hname,
      Path.trimSlashes_concat hne hlast]
  have hbase : Path.base (Path.join root (endingPattern ending)) = '*' :: ending := by
    rw [join_endingPattern, Path.base_append (.inr ⟨_, rfl⟩) hname]
  have hmagic : Pattern.hasMagic (Path.join root (endingPattern ending)) = true := by
    rw [join_endingPattern, Pattern.hasMagic_append]
    exact Bool.or_true _
  have hlong : root.length + 1 < depth := by
    rw [join_endingPattern, join_anyFolders, Path.join_of_name root rfl] at hdepth
    split_ifs at hdepth <;> simp [anyFolders] at hdepth <;> omega
  rw [expandTo_succ depth false hmagic (hparent ▸ hne), hparent, hbase,
    if_pos (hasMagic_join_anyFolders root), expandTo_anyFolders hroot hlong, List.flatMap_assoc]
  simp only [inFolder_star hplain]
  rfl

end FileTree

end Dialogue
