import Dialogue.Proofs.SearchBudget
import Dialogue.Proofs.SearchOrder
import Dialogue.Proofs.WriterFaults

/-!
# Searches that fail

A search fails at a place of its queue that has a line above it over which it stumbles, where no
line nearer to the place writes (`Trips`), or whose file is no path. A run fails exactly if the
search comes to such a place before the limit (`run_eq_error_iff`). What decides it are the indexes
in the schema, the digits in the scripts, and null characters in paths: files that cannot be read
and places that lie beyond a file's end never matter.
-/

namespace Dialogue.Trace

open Text (ShortRuns shortRuns_of_length maxDigits)

variable {query : Query} {content : Files}

namespace Query

/-- A line of the region above a place is stumbled over, and no line between the two writes. -/
def Trips (query : Query) (lines : List Text) (line : Int) (e : Error) : Prop :=
  ∃ n text, InRegion lines line n text ∧ Stumbles query.schema query.tag query.slot text e
    ∧ ∀ k other, InRegion lines line k other → n < k → query.writerOf other = .ok none

theorem scan_eq_error_iff_firstFault {e : Error} : ∀ {above : List (Text × Nat)},
    query.scan above = .error e ↔ FirstFault (fun p => query.Passes p.1)
      (fun p => Stumbles query.schema query.tag query.slot p.1 e) above
  | [] => by simp [scan, firstFault_nil]
  | (text, n) :: above => by
    rw [firstFault_cons, ← writer?_eq_error_iff, ← scan_eq_error_iff_firstFault, Passes, writerOf]
    rcases hw : writer? query.schema query.tag query.slot text with cause | _ | command
    · simp [scan, hw]
    · rcases hl : Script.label? text with _ | name <;> simp [scan, hw, hl]
    · simp [scan, hw]

theorem scan_eq_error_iff {lines : List Text} {line : Int} {e : Error} :
    query.scan (linesAbove lines line) = .error e ↔ query.Trips lines line e := by
  rw [scan_eq_error_iff_firstFault]
  constructor
  · rintro ⟨passed, ⟨text, n⟩, tail, hsplit, hp, hstumbles⟩
    refine ⟨n, text, inRegion_of_passed hsplit hp, hstumbles, fun k other hk hnk => ?_⟩
    exact (hp _ (mem_passed hsplit hnk hk.above hk.text_eq)).1
  · rintro ⟨n, text, hn, hstumbles, hquiet⟩
    have hmem : (text, n) ∈ linesAbove lines line := mem_linesAbove.2 ⟨hn.text_eq, hn.above⟩
    obtain ⟨passed, tail, hsplit⟩ := List.append_of_mem hmem
    refine ⟨passed, (text, n), tail, hsplit, fun p hp => ?_, hstumbles⟩
    have hdown := linesAbove_pairwise lines line
    rw [hsplit, List.pairwise_append] at hdown
    have hlt : n < p.2 := hdown.2.2 p hp (text, n) (by simp)
    obtain ⟨htext, habove⟩ : lines[p.2]? = some p.1 ∧ (p.2 : Int) < line :=
      mem_linesAbove.1 (hsplit ▸ List.mem_append_left _ hp)
    have hregion : InRegion lines line p.2 p.1 := ⟨htext, habove, fun k other hk =>
      hn.unlabelled k other (Nat.lt_trans hlt hk)⟩
    exact ⟨hquiet _ _ hregion hlt, hn.unlabelled _ _ hlt habove htext⟩

end Query

namespace Search

/-- The first place of the queue is one that is failed at. -/
def FailsAt (query : Query) (tree : FileTree) (search : Search) (frame : Frame) (e : Error) :
    Prop :=
  search.queue.head? = some frame
    ∧ (Path.holdsNull frame.file = true ∧ e = .notAPath {}
      ∨ ∃ lines, contentOf tree frame.file = .ok (some lines) ∧ query.Trips lines frame.line e)

theorem failsAt_iff {tree : FileTree} {search : Search} {frame : Frame} {e : Error} :
    search.FailsAt query tree frame e ↔ search.StuckAt query (contentOf tree) frame e := by
  refine and_congr_right fun _ => or_congr ⟨fun ⟨hnull, he⟩ => ⟨{}, ?_, he⟩, ?_⟩ ?_
  · exact (tree.readLines?_eq_error_iff {}).2 hnull
  · rintro ⟨null, hc, rfl⟩
    exact ⟨(tree.readLines?_eq_error_iff null).1 hc, rfl⟩
  · exact exists_congr fun lines => and_congr_right fun _ => Query.scan_eq_error_iff.symm

theorem steps_le_of_steps {search final : Search}
    (h : Relation.ReflTransGen (Next query content) search final) :
    search.steps ≤ final.steps := by
  induction h with
  | refl => exact le_rfl
  | tail _ hn ih =>
    have := hn.steps
    omega

/-- A run fails exactly if within its budget the search comes to a place that cannot be told. -/
theorem run_eq_error_iff {e : Error} : ∀ {budget : Nat} {search : Search},
    search.run query content budget = .error e
      ↔ ∃ final frame, Relation.ReflTransGen (Next query content) search final
        ∧ final.steps < search.steps + budget ∧ final.StuckAt query content frame e := by
  intro budget search
  constructor
  · intro h
    induction budget generalizing search with
    | zero => simp [run] at h
    | succ budget ih =>
      rcases run_cases query content search budget with
        ⟨_, -, hrun⟩ | ⟨next, hnext, hrun⟩ | ⟨frame, cause, hstuck, hrun⟩
      · rw [hrun] at h
        cases h
      · obtain ⟨final, frame, hsteps, hlt, hstuck⟩ := ih (hrun ▸ h)
        exact ⟨final, frame, .head hnext hsteps, by rw [hnext.steps] at hlt; omega, hstuck⟩
      · obtain rfl := Except.error.inj (hrun.symm.trans h)
        exact ⟨search, frame, .refl, by omega, hstuck⟩
  · rintro ⟨final, frame, hsteps, hlt, hstuck⟩
    induction hsteps using Relation.ReflTransGen.head_induction_on generalizing budget with
    | refl =>
      obtain ⟨budget, rfl⟩ : ∃ b, budget = b + 1 := ⟨budget - 1, by omega⟩
      exact run_of_stuckAt hstuck budget
    | @head search next hnext hrest ih =>
      have hstep := hnext.steps
      have hle : next.steps ≤ final.steps := steps_le_of_steps hrest
      obtain ⟨budget, rfl⟩ : ∃ b, budget = b + 1 := ⟨budget - 1, by omega⟩
      rw [run_next hnext]
      exact ih (by omega)

end Search

variable {tree : FileTree} {index : Script.Index} {schema : Schema} {limit : Int}
  {request : Request}

theorem trace_eq_error_iff {e : Error} : trace tree index schema limit request = .error e
    ↔ ∃ search frame,
      Relation.ReflTransGen (Search.Next (.ofRequest index schema request) (contentOf tree))
          (.start request) search
        ∧ (search.steps : Int) < limit ∧ Reached index (contentOf tree) request frame
        ∧ search.FailsAt (.ofRequest index schema request) tree frame e := by
  rw [trace_eq, Search.run_eq_error_iff]
  refine exists_congr fun search => exists_congr fun frame => ?_
  have hstart : (Search.start request).steps = 0 := rfl
  rw [Search.failsAt_iff]
  constructor
  · rintro ⟨hsteps, hlt, hstuck⟩
    exact ⟨hsteps, by omega, hstuck.reached hsteps, hstuck⟩
  · rintro ⟨hsteps, hlt, -, hstuck⟩
    exact ⟨hsteps, by omega, hstuck⟩

theorem exists_result (hschema : CountsFromStart schema)
    (hlines : ∀ file lines, contentOf tree file = .ok (some lines) → ∀ text ∈ lines, ShortRuns text)
    (hpaths : ∀ frame, Reached index (contentOf tree) request frame →
      Path.holdsNull frame.file = false) :
    ∃ result, trace tree index schema limit request = .ok result := by
  rcases h : trace tree index schema limit request with e | result
  · obtain ⟨_, frame, -, -, hr, -, ⟨hnull, -⟩ | ⟨lines, hc, n, text, hn, hstumbles, -⟩⟩ :=
      trace_eq_error_iff.1 h
    · rw [hpaths frame hr] at hnull
      cases hnull
    · have hshort := hlines _ lines hc text (List.mem_of_getElem? hn.text_eq)
      exact absurd hstumbles (not_stumbles hschema hshort)
  · exact ⟨result, rfl⟩

/-- A trace fails exactly if within its limit the search comes to a place, reached from the request,
above which it stumbles or whose file is no path. So it has a result wherever parameters count from
the start, no run of digits in a script is too long, and all files that are reached have paths. -/
theorem fails_iff_trips (tree : FileTree) (index : Script.Index) (schema : Schema) (limit : Int)
    (request : Request) :
    (∀ e, trace tree index schema limit request = .error e
      ↔ ∃ search frame,
        Relation.ReflTransGen (Search.Next (.ofRequest index schema request) (contentOf tree))
            (.start request) search
          ∧ (search.steps : Int) < limit ∧ Reached index (contentOf tree) request frame
          ∧ search.FailsAt (.ofRequest index schema request) tree frame e)
      ∧ (CountsFromStart schema →
        (∀ file lines, contentOf tree file = .ok (some lines) → ∀ text ∈ lines, ShortRuns text) →
        (∀ frame, Reached index (contentOf tree) request frame →
          Path.holdsNull frame.file = false) →
        ∃ result, trace tree index schema limit request = .ok result) :=
  ⟨fun _ => trace_eq_error_iff, exists_result⟩

theorem countsFromStart_of_values {schema : Schema}
    (h : ∀ command ∈ schema.hints.values ++ schema.commands.values, ∀ param ∈ command.params,
      0 ≤ param.index.value) : CountsFromStart schema := by
  have hvalue : ∀ {table : Table Command.Name Command} {name : Command.Name} {command : Command},
      table.get? name = some command → command ∈ table.values := by
    intro table name command hget
    obtain ⟨entry, hfind, rfl⟩ := Option.map_eq_some_iff.1 hget
    exact List.mem_map_of_mem (List.mem_of_find?_eq_some hfind)
  intro name command hget
  refine h command (List.mem_append.2 ?_)
  rcases hhint : schema.hints.get? name with _ | hint
  · rw [Schema.find?, hhint] at hget
    exact .inr (hvalue hget)
  · rw [Schema.find?, hhint] at hget
    exact .inl (Option.some.inj hget ▸ hvalue hhint)

theorem fails_iff_trips_fork :
    CountsFromStart setSchema
      ∧ (∀ file lines, contentOf (treeOf forkScripts) file = .ok (some lines) →
        ∀ text ∈ lines, ShortRuns text)
      ∧ (∀ frame, Reached (indexOf forkScripts) (contentOf (treeOf forkScripts)) ⟨"t", 9, 0, 1⟩
        frame → Path.holdsNull frame.file = false)
      ∧ ∃ result, trace (treeOf forkScripts) (indexOf forkScripts) setSchema 50 ⟨"t", 9, 0, 1⟩
        = .ok result := by
  have hschema : CountsFromStart setSchema := countsFromStart_of_values (by decide +kernel)
  have hshort : ∀ entry ∈ (treeOf forkScripts).entries.entries, ∀ text ∈ linesOf entry.2,
      text.length ≤ maxDigits := by decide +kernel
  have hlines : ∀ file lines, contentOf (treeOf forkScripts) file = .ok (some lines) →
      ∀ text ∈ lines, ShortRuns text := by
    intro file lines hc text htext
    obtain ⟨entry, hentry, rfl⟩ := exists_entry_of_contentOf hc
    exact shortRuns_of_length (hshort entry hentry text htext)
  have hpaths : ∀ frame, Reached (indexOf forkScripts) (contentOf (treeOf forkScripts))
      ⟨"t", 9, 0, 1⟩ frame → Path.holdsNull frame.file = false :=
    fun _ hr => holdsNull_of_reached (by decide) (by decide +kernel) hr
  exact ⟨hschema, hlines, hpaths, (fails_iff_trips (treeOf forkScripts) (indexOf forkScripts)
    setSchema 50 ⟨"t", 9, 0, 1⟩).2 hschema hlines hpaths⟩

/-- A folder with a hint whose parameter counts two back from the end, and a script with a call of
one argument. -/
def backwardTree : FileTree := ⟨[], .ofList
  [([['s']], .folder),
   (["s", "hints.json"], .file (Utf8.encode
    "[\x7b\x22Cmd\x22: \x22SET\x22, \x22Params\x22: [\x7b\x22Index\x22: -2, \x22Type\x22: [\x22TagIndex\x22]\x7d]\x7d]")),
   ([['a']], .file (Utf8.encode "T:\n SET(0)\n P(0)\n"))]⟩

/-- Not every trace over a schema that was loaded has a result. -/
theorem not_returns_of_backward :
    ¬ ∀ (room : Nat) (tree : FileTree) (folder : Text) (schema : Schema) (index : Script.Index)
        (limit : Int) (request : Request), (Schema.load room tree folder).2 = .ok schema →
        ∃ result, trace tree index schema limit request = .ok result := by
  intro h
  have hfails : (Schema.load 5 backwardTree "s").2.toOption.map
      (fun schema => trace backwardTree {} schema 50 ⟨"a", 2, 0, 1⟩)
        = some (.error .noSuchArgument) := by decide +kernel
  rcases hload : (Schema.load 5 backwardTree "s").2 with e | schema
  · rw [hload] at hfails
    cases hfails
  · obtain ⟨result, hresult⟩ := h 5 backwardTree "s" schema {} 50 ⟨"a", 2, 0, 1⟩ hload
    rw [hload] at hfails
    simp only [Except.toOption, Option.map_some, hresult] at hfails
    cases hfails

end Dialogue.Trace
