import Dialogue.Trace.Search
import Mathlib.Data.List.TakeWhile
import Mathlib.Tactic.SplitIfs

/-!
# A search that carries its labels

A search keeps every place that it has found, with the number of the place from which it was found,
and walks back over these numbers when it has found a writer. Here a place carries the labels that
led to it instead, and only those that are yet to be taken are kept (`Search`). The two do the same
(`Arena.run_eq`): each place was found from an earlier one over a label with a name
(`Arena.Rooted`), so the walk from a place that is added is one label and then the walk from the
place it was found from (`Arena.labelPath_append`).
-/

namespace Dialogue

namespace Script

open Text

/-- A name that a line can declare. -/
def IsLabel (name : Text) : Prop := name ≠ [] ∧ ∀ c ∈ name, isWord c = true

theorem isLabel_of_takeWord? {text name rest : Text} (h : takeWord? text = some (name, rest)) :
    IsLabel name := by
  unfold takeWord? at h
  simp only [] at h
  split_ifs at h with hempty
  cases h
  exact ⟨by simpa using hempty, fun _ hc => List.mem_takeWhile_imp hc⟩

theorem isLabel_of_label? {line name : Text} (h : label? line = some name) : IsLabel name := by
  rcases hmarker : labelAfterMarker? (code line) with _ | marked
  · have hcolon : labelBeforeColon? (code line) = some name := by simpa [label?, hmarker] using h
    simp only [labelBeforeColon?, Option.bind_eq_bind, Option.bind_eq_some_iff] at hcolon
    obtain ⟨⟨word, after⟩, hword, rest, -, h⟩ := hcolon
    split_ifs at h
    obtain rfl := Option.some.inj h
    exact isLabel_of_takeWord? hword
  · obtain rfl : marked = name := by simpa [label?, hmarker] using h
    simp only [labelAfterMarker?, Option.bind_eq_bind, Option.bind_eq_some_iff] at hmarker
    obtain ⟨rest, -, hmarker⟩ := hmarker
    split_ifs at hmarker
    · simp only [Option.bind_eq_some_iff] at hmarker
      obtain ⟨after, -, ⟨word, tail⟩, hword, h⟩ := hmarker
      obtain rfl := Option.some.inj h
      exact isLabel_of_takeWord? hword
    · cases hmarker

end Script

namespace Trace

/-- A place to read upwards from, and the labels that led there, the last one first. -/
structure Frame where
  file : Text
  line : Int
  path : List Text := []
deriving DecidableEq, Repr

/-- What a search knows and still has to do. -/
structure Search where
  queue : List Frame
  visited : List Text := []
  steps : Nat := 0
  unreadable : List Text := []

def Query.framesOf (query : Query) (path : List Text) (label : Text) : List Frame :=
  (query.index.callersOf label).map fun site => ⟨site.file, site.line, label :: path⟩

namespace Search

def start (request : Request) : Search := { queue := [⟨request.file, request.line, []⟩] }

def pop (search : Search) (rest : List Frame) : Search :=
  { search with queue := rest, steps := search.steps + 1 }

def miss (search : Search) (file : Text) : Search :=
  if search.unreadable.contains file then search
  else { search with unreadable := search.unreadable ++ [file] }

def finish (search : Search) (outcome : Outcome) : Result :=
  ⟨outcome, search.steps, Text.sort search.unreadable⟩

def stop (search : Search) : Result :=
  search.finish (if search.queue.isEmpty then .unresolved else .budgetExceeded)

/-- The search after the label that ended a block; the label is expanded the first time. -/
def cross (query : Query) (search : Search) (path : List Text) (label : Text) : Search :=
  if search.visited.contains label then search
  else
    { search with
      visited := search.visited ++ [label]
      queue := search.queue ++ query.framesOf path label }

/-- The search after the block above a place, or its result. -/
def visit (query : Query) (search : Search) (frame : Frame) (lines : List Text) :
    Except Error (Search ⊕ Result) :=
  match query.scan (linesAbove lines frame.line) with
  | .error e => .error e
  | .ok (.writer command line) =>
    .ok (.inr (search.finish (.resolved ⟨command, frame.file, line, frame.path⟩)))
  | .ok (.label name) => .ok (.inl (search.cross query frame.path name))
  | .ok .top => .ok (.inl search)

def run (query : Query) (content : Files) : Nat → Search → Except Error Result
  | 0, search => .ok search.stop
  | budget + 1, search =>
    match search.queue with
    | [] => .ok search.stop
    | frame :: rest =>
      match content frame.file with
      | .error e => .error (.notAPath e)
      | .ok none => run query content budget ((search.pop rest).miss frame.file)
      | .ok (some lines) =>
        match (search.pop rest).visit query frame lines with
        | .error e => .error e
        | .ok (.inl next) => run query content budget next
        | .ok (.inr result) => .ok result

end Search

/-! ## The walk back -/

/-- Each place was found from an earlier one, over a label with a name. -/
def Rooted (nodes : List Node) : Prop :=
  ∀ (place : Nat) (node : Node), nodes[place]? = some node →
    (∀ label ∈ node.via, label ≠ []) ∧ ∀ origin ∈ node.parent, origin < place

section Walk

variable {nodes more : List Node}

/-- No walk has more places than there are up to its first one. -/
theorem pathFrom_eq_of_le (h : Rooted nodes) : ∀ {bound other : Nat} {place : Nat},
    place < bound → place < other →
      pathFrom nodes bound (some place) = pathFrom nodes other (some place)
  | bound + 1, other + 1, place, hbound, hother => by
    rcases hnode : nodes[place]? with _ | node
    · simp only [pathFrom, hnode]
    · rcases hparent : node.parent with _ | origin
      · cases bound <;> cases other <;> simp only [pathFrom, hnode, hparent]
      · have hlt : origin < place := (h place node hnode).2 origin hparent
        have hrest : pathFrom nodes bound (some origin) = pathFrom nodes other (some origin) :=
          pathFrom_eq_of_le h (by omega) (by omega)
        simp only [pathFrom, hnode, hparent, hrest]

/-- Places that are added later are on no walk from an earlier one. -/
theorem pathFrom_append (h : Rooted nodes) : ∀ {bound : Nat} {place : Nat}, place < nodes.length →
    pathFrom (nodes ++ more) bound (some place) = pathFrom nodes bound (some place)
  | 0, _, _ => rfl
  | bound + 1, place, hplace => by
    have hnode : (nodes ++ more)[place]? = nodes[place]? := List.getElem?_append_left hplace
    rw [List.getElem?_eq_getElem hplace] at hnode
    rcases hparent : nodes[place].parent with _ | origin
    · cases bound <;> simp only [pathFrom, hnode, List.getElem?_eq_getElem hplace, hparent]
    · have hlt : origin < place :=
        (h place _ (List.getElem?_eq_getElem hplace)).2 origin hparent
      have hrest : pathFrom (nodes ++ more) bound (some origin)
          = pathFrom nodes bound (some origin) :=
        pathFrom_append h (by omega)
      simp only [pathFrom, hnode, List.getElem?_eq_getElem hplace, hparent, hrest]

theorem rooted_append (h : Rooted nodes) {query : Query} {place : Nat} {label : Text}
    (hplace : place < nodes.length) (hlabel : label ≠ []) :
    Rooted (nodes ++ query.nodesOf place label) := by
  intro other node hnode
  by_cases hother : other < nodes.length
  · exact h other node (List.getElem?_append_left hother ▸ hnode)
  · rw [List.getElem?_append_right (Nat.le_of_not_lt hother)] at hnode
    obtain ⟨site, -, rfl⟩ := List.mem_map.1 (List.mem_of_getElem? hnode)
    refine ⟨fun _ hvia => Option.some.inj hvia ▸ hlabel, fun _ horigin => ?_⟩
    obtain rfl := Option.some.inj horigin
    omega

/-- The walk from an added place is the label that led there, and then the walk from the place it
was found from; the walks from the others stay. -/
theorem labelPath_append (h : Rooted nodes) {query : Query} {place : Nat} {label : Text}
    (hplace : place < nodes.length) (hlabel : label ≠ []) {other : Nat} {node : Node}
    (hnode : (nodes ++ query.nodesOf place label)[other]? = some node) :
    labelPath (nodes ++ query.nodesOf place label) other
      = if other < nodes.length then labelPath nodes other else label :: labelPath nodes place := by
  have hrooted : Rooted (nodes ++ query.nodesOf place label) := rooted_append h hplace hlabel
  have hbound := (List.getElem?_eq_some_iff.1 hnode).1
  have hkept : ∀ {early bound : Nat}, early < nodes.length → early < bound →
      pathFrom (nodes ++ query.nodesOf place label) bound (some early) = labelPath nodes early :=
    fun hearly hlt => (pathFrom_eq_of_le hrooted hlt hearly).trans (pathFrom_append h hearly)
  split_ifs with hother
  · exact hkept hother hbound
  · have hadded := hnode
    rw [List.getElem?_append_right (Nat.le_of_not_lt hother)] at hadded
    obtain ⟨site, -, rfl⟩ := List.mem_map.1 (List.mem_of_getElem? hadded)
    obtain ⟨bound, hlength⟩ := Nat.exists_eq_succ_of_ne_zero (Nat.ne_zero_of_lt hbound)
    have hfilter : (some label).filter (fun label => !label.isEmpty) = some label := by
      simp [Option.filter, hlabel]
    rw [labelPath, hlength, pathFrom, hnode]
    simp only [hfilter, Option.toList_some, List.singleton_append]
    rw [hkept hplace (by omega)]

end Walk

/-- A place with the labels that led there. -/
def carried (nodes : List Node) (found : Node × Nat) : Frame :=
  ⟨found.1.file, found.1.line, labelPath nodes found.2⟩

/-- The places that are yet to be taken. -/
def framesAfter (nodes : List Node) (taken : Nat) : List Frame :=
  (nodes.zipIdx.drop taken).map (carried nodes)

theorem framesAfter_append {nodes : List Node} (h : Rooted nodes) {query : Query}
    {taken place : Nat} {label : Text} (hplace : place < nodes.length) (htaken : taken ≤ nodes.length)
    (hlabel : label ≠ []) : framesAfter (nodes ++ query.nodesOf place label) taken
      = framesAfter nodes taken ++ query.framesOf (labelPath nodes place) label := by
  rw [framesAfter, List.zipIdx_append, Nat.zero_add,
    List.drop_append_of_le_length (by simpa using htaken), List.map_append]
  congr 1
  · refine List.map_congr_left fun found hfound => ?_
    obtain ⟨node, other⟩ := found
    have hnode : nodes[other]? = some node :=
      List.mk_mem_zipIdx_iff_getElem?.1 (List.mem_of_mem_drop hfound)
    have hother := (List.getElem?_eq_some_iff.1 hnode).1
    have hkept : (nodes ++ query.nodesOf place label)[other]? = some node :=
      (List.getElem?_append_left hother).trans hnode
    simp only [carried, labelPath_append h hplace hlabel hkept, if_pos hother]
  · have hcarried : ∀ found ∈ (query.nodesOf place label).zipIdx nodes.length,
        carried (nodes ++ query.nodesOf place label) found
          = ((fun node => ⟨node.file, node.line, label :: labelPath nodes place⟩)
            ∘ Prod.fst) found := by
      rintro ⟨node, other⟩ hfound
      obtain ⟨hle, hnode⟩ := List.mk_mem_zipIdx_iff_le_and_getElem?_sub.1 hfound
      rw [← List.getElem?_append_right hle] at hnode
      simp only [carried, labelPath_append h hplace hlabel hnode, if_neg (Nat.not_lt.2 hle),
        Function.comp_apply]
    rw [List.map_congr_left hcarried, ← List.map_map, List.zipIdx_map_fst]
    simp [Query.nodesOf, Query.framesOf]

namespace Arena

variable {arena : Arena} {query : Query} {content : Files}

/-- The search with the labels carried along. -/
def search (arena : Arena) : Search :=
  ⟨framesAfter arena.nodes arena.steps, arena.visited, arena.steps, arena.unreadable⟩

theorem rooted_start (request : Request) : Rooted (start request).nodes := by
  intro place node hnode
  rcases place with _ | place
  · obtain rfl := Option.some.inj hnode
    simp
  · cases hnode

theorem search_start (request : Request) : (start request).search = .start request := rfl

theorem search_stop (arena : Arena) : arena.stop = arena.search.stop := by
  have hempty : arena.search.queue.isEmpty = !decide (arena.steps < arena.nodes.length) := by
    rw [Bool.eq_iff_iff, List.isEmpty_iff]
    simp [search, framesAfter]
  rw [stop, Search.stop, hempty]
  by_cases h : arena.steps < arena.nodes.length
  · simp [h, finish, Search.finish, search]
  · simp [h, finish, Search.finish, search]

theorem search_queue_of_next? {node : Node} (h : arena.next? = some node) :
    arena.search.queue = carried arena.nodes (node, arena.steps) :: arena.take.search.queue := by
  obtain ⟨hlt, rfl⟩ := List.getElem?_eq_some_iff.1 h
  simp only [search, framesAfter, take]
  rw [List.drop_eq_getElem_cons (by simpa using hlt), List.map_cons, List.getElem_zipIdx,
    Nat.zero_add]

theorem search_queue_of_none (h : arena.next? = none) : arena.search.queue = [] := by
  have hle := List.getElem?_eq_none_iff.1 h
  simpa [search, framesAfter] using hle

theorem search_miss (file : Text) : (arena.miss file).search = arena.search.miss file := by
  unfold miss Search.miss search
  split_ifs <;> rfl

/-- A label that is crossed for the first time adds its places with the labels carried on. -/
theorem search_cross (h : Rooted arena.nodes) {place : Nat} {label : Text}
    (hplace : place < arena.nodes.length) (htaken : arena.steps ≤ arena.nodes.length)
    (hlabel : label ≠ []) : (arena.cross query place label).search
      = arena.search.cross query (labelPath arena.nodes place) label := by
  unfold cross Search.cross
  by_cases hvisited : arena.visited.contains label = true
  · rw [if_pos hvisited, if_pos (show arena.search.visited.contains label = true from hvisited)]
  · rw [if_neg hvisited, if_neg (show ¬ arena.search.visited.contains label = true from hvisited)]
    simp only [search, framesAfter_append h hplace htaken hlabel]

theorem rooted_cross (h : Rooted arena.nodes) {place : Nat} {label : Text}
    (hplace : place < arena.nodes.length) (hlabel : label ≠ []) :
    Rooted (arena.cross query place label).nodes := by
  unfold cross
  split_ifs
  · exact h
  · exact rooted_append h hplace hlabel

/-- A label at which a scan stops has a name. -/
theorem label_ne_nil_of_scan : ∀ {above : List (Text × Nat)} {label : Text},
    query.scan above = .ok (.label label) → label ≠ []
  | [], _, h => by cases h
  | (text, line) :: above, label, h => by
    simp only [Query.scan] at h
    split at h
    · cases h
    · cases h
    · split at h
      · rename_i name hname
        cases h
        exact (Script.isLabel_of_label? hname).1
      · exact label_ne_nil_of_scan h

/-- A search and the one that carries its labels give the same result. -/
theorem run_eq : ∀ {budget : Nat} {arena : Arena}, Rooted arena.nodes →
    arena.run query content budget = arena.search.run query content budget
  | 0, arena, _ => congrArg Except.ok arena.search_stop
  | budget + 1, arena, h => by
    rw [run, Search.run]
    rcases hnext : arena.next? with _ | node
    · rw [search_queue_of_none hnext]
      exact congrArg Except.ok arena.search_stop
    have hrooted : Rooted arena.take.nodes := h
    have hplace : arena.steps < arena.take.nodes.length := (List.getElem?_eq_some_iff.1 hnext).1
    rw [search_queue_of_next? hnext]
    simp only [carried]
    rcases content node.file with e | _ | lines
    · rfl
    · have hmissed : Rooted (arena.take.miss node.file).nodes := by
        unfold miss
        split_ifs <;> exact hrooted
      simp only [run_eq hmissed, search_miss]
      rfl
    · have htaken : arena.search.pop arena.take.search.queue = arena.take.search := rfl
      simp only [htaken, visit, Search.visit]
      rcases hscan : query.scan (linesAbove lines node.line) with e | ⟨command, n⟩ | label | _
      · rfl
      · rfl
      · have hlabel := label_ne_nil_of_scan hscan
        have hcrossed : Rooted (arena.take.cross query arena.steps label).nodes :=
          rooted_cross hrooted hplace hlabel
        have hsearch : (arena.take.cross query arena.steps label).search
            = arena.take.search.cross query (labelPath arena.nodes arena.steps) label :=
          search_cross hrooted hplace hplace hlabel
        simp only [run_eq hcrossed, hsearch]
      · exact run_eq hrooted

end Arena

/-- A search is the one that carries its labels, from the place of the request on. -/
theorem trace_eq (tree : FileTree) (index : Script.Index) (schema : Schema) (limit : Int)
    (request : Request) : trace tree index schema limit request
      = (Search.start request).run (.ofRequest index schema request) (contentOf tree)
        limit.toNat := by
  rw [trace, Arena.run_eq (Arena.rooted_start request), Arena.search_start]

end Trace

end Dialogue
