import Dialogue.Proofs.CarriedPaths
import Dialogue.Proofs.Region
import Mathlib.Logic.Relation

/-!
# A search step by step

A search goes on from one state to the next by taking a place (`Next`), and ends where it takes no
more of them or meets a writer (`Ends`). A run is such steps and such an end (`run_ends`), so what
every step keeps holds of the state in which the result is given.
-/

namespace Dialogue.Trace

variable {query : Query} {content : Files}

theorem lines_unique {file : Text} {lines other : List Text} (h : content file = .ok (some lines))
    (h' : content file = .ok (some other)) : lines = other :=
  Option.some.inj (Except.ok.inj (h.symm.trans h'))

/-- A place reached from a request by going back over labels: from a place whose region ends at a
label, every line that names the label is reached. -/
inductive Reached (index : Script.Index) (content : Files) (request : Request) : Frame → Prop
  | origin : Reached index content request ⟨request.file, request.line, []⟩
  | caller {frame : Frame} {lines : List Text} {label : Text} {site : Script.CallSite}
      (reached : Reached index content request frame)
      (readable : content frame.file = .ok (some lines))
      (ends : EndsAt lines frame.line label) (names : site ∈ index.callersOf label) :
      Reached index content request ⟨site.file, site.line, label :: frame.path⟩

/-- A place that is reached is in the file of the request or of a line that names a label. -/
theorem Reached.file_cases {index : Script.Index} {request : Request} {frame : Frame}
    (h : Reached index content request frame) : frame.file = request.file
      ∨ ∃ label, ∃ site ∈ index.callersOf label, frame.file = site.file := by
  cases h with
  | origin => exact .inl rfl
  | caller _ _ _ names => exact .inr ⟨_, _, names, rfl⟩

/-- No line of the region above a place has a writer. -/
def Query.Quiet (query : Query) (content : Files) (frame : Frame) : Prop :=
  ∀ lines, content frame.file = .ok (some lines) → ∀ n text, InRegion lines frame.line n text →
    query.writerOf text = .ok none

namespace Search

/-- How a search goes on after it takes a place. -/
inductive Next (query : Query) (content : Files) (search : Search) : Search → Prop
  | miss {frame : Frame} {rest : List Frame} (queue : search.queue = frame :: rest)
      (unreadable : content frame.file = .ok none) :
      Next query content search ((search.pop rest).miss frame.file)
  | top {frame : Frame} {rest : List Frame} {lines : List Text}
      (queue : search.queue = frame :: rest) (readable : content frame.file = .ok (some lines))
      (scan : query.scan (linesAbove lines frame.line) = .ok .top) :
      Next query content search (search.pop rest)
  | cross {frame : Frame} {rest : List Frame} {lines : List Text} {label : Text}
      (queue : search.queue = frame :: rest) (readable : content frame.file = .ok (some lines))
      (scan : query.scan (linesAbove lines frame.line) = .ok (.label label)) :
      Next query content search ((search.pop rest).cross query frame.path label)

/-- How a search ends: no more places are taken, or the next one has a writer above it. -/
inductive Ends (query : Query) (content : Files) (search : Search) : Result → Prop
  | stopped : Ends query content search search.stop
  | found {frame : Frame} {rest : List Frame} {lines : List Text} {command : Text} {n : Nat}
      (queue : search.queue = frame :: rest) (readable : content frame.file = .ok (some lines))
      (scan : query.scan (linesAbove lines frame.line) = .ok (.writer command n)) :
      Ends query content search
        ((search.pop rest).finish (.resolved ⟨command, frame.file, n, frame.path⟩))

/-- The next place cannot be told: its file is no path, or the region above it has an error. -/
def StuckAt (query : Query) (content : Files) (search : Search) (frame : Frame) (e : Error) :
    Prop :=
  search.queue.head? = some frame
    ∧ ((∃ null, content frame.file = .error null ∧ e = .notAPath null)
      ∨ ∃ lines, content frame.file = .ok (some lines)
        ∧ query.scan (linesAbove lines frame.line) = .error e)

theorem run_of_stuckAt {search : Search} {frame : Frame} {e : Error}
    (h : search.StuckAt query content frame e) (budget : Nat) :
    search.run query content (budget + 1) = .error e := by
  obtain ⟨hhead, ⟨null, hc, rfl⟩ | ⟨lines, hc, hscan⟩⟩ := h <;>
    obtain ⟨rest, hq⟩ := List.head?_eq_some_iff.1 hhead
  · simp only [run, hq, hc]
  · simp only [run, hq, hc, visit, hscan]

/-- What a run does that may take a place: it ends, it goes on, or the place cannot be told. -/
theorem run_cases (query : Query) (content : Files) (search : Search) (budget : Nat) :
    (∃ result, Ends query content search result
        ∧ search.run query content (budget + 1) = .ok result)
      ∨ (∃ next, Next query content search next
        ∧ search.run query content (budget + 1) = next.run query content budget)
      ∨ ∃ frame e, search.StuckAt query content frame e
        ∧ search.run query content (budget + 1) = .error e := by
  rcases hq : search.queue with _ | ⟨frame, rest⟩
  · exact .inl ⟨_, .stopped, by simp only [run, hq]⟩
  have hhead : search.queue.head? = some frame := by rw [hq, List.head?_cons]
  have hstuck : ∀ {e : Error}, search.StuckAt query content frame e →
      ∃ frame e, search.StuckAt query content frame e
        ∧ search.run query content (budget + 1) = .error e :=
    fun h => ⟨frame, _, h, run_of_stuckAt h budget⟩
  rcases hc : content frame.file with null | _ | lines
  · exact .inr (.inr (hstuck ⟨hhead, .inl ⟨null, hc, rfl⟩⟩))
  · exact .inr (.inl ⟨_, .miss hq hc, by simp only [run, hq, hc]⟩)
  rcases hscan : query.scan (linesAbove lines frame.line) with e | stop
  · exact .inr (.inr (hstuck ⟨hhead, .inr ⟨lines, hc, hscan⟩⟩))
  cases stop with
  | writer command n =>
    exact .inl ⟨_, .found hq hc hscan, by simp only [run, hq, hc, visit, hscan]⟩
  | label label =>
    exact .inr (.inl ⟨_, .cross hq hc hscan, by simp only [run, hq, hc, visit, hscan]⟩)
  | top => exact .inr (.inl ⟨_, .top hq hc hscan, by simp only [run, hq, hc, visit, hscan]⟩)

/-- A run that has a result takes places one after the other and ends in it. -/
theorem run_ends : ∀ {budget : Nat} {search : Search} {result : Result},
    search.run query content budget = .ok result →
      ∃ final, Relation.ReflTransGen (Next query content) search final
        ∧ Ends query content final result
  | 0, search, result, h => by
    simp only [run, Except.ok.injEq] at h
    exact ⟨search, .refl, h ▸ .stopped⟩
  | budget + 1, search, result, h => by
    rcases run_cases query content search budget with
      ⟨other, hend, hrun⟩ | ⟨next, hnext, hrun⟩ | ⟨_, e, -, hrun⟩
    · obtain rfl := Except.ok.inj (hrun.symm.trans h)
      exact ⟨search, .refl, hend⟩
    · obtain ⟨final, hsteps, hend⟩ := run_ends (hrun ▸ h)
      exact ⟨final, .head hnext hsteps, hend⟩
    · rw [hrun] at h
      cases h

@[simp] theorem pop_queue (search : Search) (rest : List Frame) :
    (search.pop rest).queue = rest := rfl

@[simp] theorem pop_visited (search : Search) (rest : List Frame) :
    (search.pop rest).visited = search.visited := rfl

@[simp] theorem miss_queue (search : Search) (file : Text) :
    (search.miss file).queue = search.queue := by
  unfold miss
  split <;> rfl

@[simp] theorem miss_visited (search : Search) (file : Text) :
    (search.miss file).visited = search.visited := by
  unfold miss
  split <;> rfl

/-- A label that was crossed before changes nothing; any other one is marked, and the lines that
name it are queued. -/
theorem cross_cases (query : Query) (search : Search) (path : List Text) (label : Text) :
    (label ∈ search.visited ∧ search.cross query path label = search)
      ∨ (label ∉ search.visited
        ∧ (search.cross query path label).visited = search.visited ++ [label]
        ∧ (search.cross query path label).queue = search.queue ++ query.framesOf path label) := by
  unfold cross
  by_cases h : label ∈ search.visited
  · exact .inl ⟨h, by simp [h]⟩
  · exact .inr ⟨h, by simp [h]⟩

end Search

/-- A search with a result takes places from the one of the request on and ends in it. -/
theorem ends_of_trace {tree : FileTree} {index : Script.Index} {schema : Schema} {limit : Int}
    {request : Request} {result : Result} (h : trace tree index schema limit request = .ok result) :
    ∃ final, Relation.ReflTransGen
        (Search.Next (.ofRequest index schema request) (contentOf tree)) (.start request) final
      ∧ final.Ends (.ofRequest index schema request) (contentOf tree) result := by
  rw [trace_eq] at h
  exact Search.run_ends h

/-- A frame is queued for a label where it is at a line that names the label, one crossing on. -/
theorem mem_framesOf {path : List Text} {label : Text} {frame : Frame} :
    frame ∈ query.framesOf path label
      ↔ ∃ site ∈ query.index.callersOf label, frame = ⟨site.file, site.line, label :: path⟩ := by
  simp only [Query.framesOf, List.mem_map, eq_comm]

end Dialogue.Trace
