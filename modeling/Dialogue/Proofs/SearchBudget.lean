import Dialogue.Proofs.Locating
import Dialogue.Proofs.SearchOrder
import Dialogue.Proofs.Tables
import Mathlib.Algebra.GroupWithZero.Nat

/-!
# What a search costs

Without a limit a search takes one place after the other until nothing is queued or a writer is met
(`Exhausts`). Each place that it takes is the first one or names a label that is crossed for the
first time, so there are no more of them than lines that name labels, and one (`exists_exhausts`).
A search with a limit is the same as one without if it may take that many places
(`run_of_exhausts`), and otherwise stops at its limit with places left (`run_of_short`).
-/

namespace Dialogue

/-- How many lines name some label. -/
def Script.Index.siteCount (index : Script.Index) : Nat :=
  (index.callers.values.map List.length).sum

namespace Trace

variable {query : Query} {content : Files}

/-- A search without a limit takes `n` places and ends in the result. -/
inductive Exhausts (query : Query) (content : Files) : Search → Nat → Result → Prop
  | empty {search : Search} (queue : search.queue = []) :
      Exhausts query content search 0 (search.finish .unresolved)
  | found {search : Search} {frame : Frame} {rest : List Frame} {lines : List Text}
      {command : Text} {line : Nat} (queue : search.queue = frame :: rest)
      (readable : content frame.file = .ok (some lines))
      (scan : query.scan (linesAbove lines frame.line) = .ok (.writer command line)) :
      Exhausts query content search 1
        ((search.pop rest).finish (.resolved ⟨command, frame.file, line, frame.path⟩))
  | next {search after : Search} {n : Nat} {result : Result}
      (step : Search.Next query content search after)
      (rest : Exhausts query content after n result) :
      Exhausts query content search (n + 1) result

/-- It can be told of every line of the files whether a command on it writes what is asked for. -/
def Query.TellsAll (query : Query) (content : Files) : Prop :=
  ∀ file lines, content file = .ok (some lines) → ∀ text ∈ lines,
    ∃ command, query.writerOf text = .ok command

namespace Search

theorem miss_steps (search : Search) (file : Text) : (search.miss file).steps = search.steps := by
  unfold miss
  split <;> rfl

theorem cross_steps (query : Query) (search : Search) (path : List Text) (label : Text) :
    (search.cross query path label).steps = search.steps := by
  unfold cross
  split <;> rfl

theorem Next.steps {search next : Search} (h : Next query content search next) :
    next.steps = search.steps + 1 := by
  cases h with
  | miss => rw [miss_steps, pop]
  | top => rw [pop]
  | cross => rw [cross_steps, pop]

theorem Next.queue_ne_nil {search next : Search} (h : Next query content search next) :
    search.queue ≠ [] := by
  intro hempty
  cases h with
  | miss hq => simp [hempty] at hq
  | top hq => simp [hempty] at hq
  | cross hq => simp [hempty] at hq

/-- A run that may take a place goes on as the search does. -/
theorem run_next {search next : Search} (h : Next query content search next) (budget : Nat) :
    search.run query content (budget + 1) = next.run query content budget := by
  cases h with
  | miss hq hc => simp only [run, hq, hc]
  | top hq hc hscan => simp only [run, hq, hc, visit, hscan]
  | cross hq hc hscan => simp only [run, hq, hc, visit, hscan]

theorem run_of_exhausts {search : Search} {n : Nat} {result : Result}
    (h : Exhausts query content search n result) {budget : Nat} (hb : n ≤ budget) :
    search.run query content budget = .ok result := by
  induction h generalizing budget with
  | @empty search hq =>
    have hstop : search.stop = search.finish .unresolved := by simp [stop, hq]
    cases budget with
    | zero => simp only [run, hstop]
    | succ budget => simp only [run, hq, hstop]
  | found hq hc hscan =>
    obtain ⟨budget, rfl⟩ : ∃ b, budget = b + 1 := ⟨budget - 1, by omega⟩
    simp only [run, hq, hc, visit, hscan]
  | next hstep _ ih =>
    obtain ⟨budget, rfl⟩ : ∃ b, budget = b + 1 := ⟨budget - 1, by omega⟩
    rw [run_next hstep]
    exact ih (by omega)

/-- A run that may take fewer places than the search needs takes as many as it may, and places are
left. -/
theorem run_of_short {search : Search} {n : Nat} {result : Result}
    (h : Exhausts query content search n result) {budget : Nat} (hb : budget < n) :
    ∃ short, search.run query content budget = .ok short ∧ short.outcome = .budgetExceeded
      ∧ short.steps = search.steps + budget := by
  have hstop : ∀ {search : Search}, search.queue ≠ [] →
      ∃ short, search.run query content 0 = .ok short ∧ short.outcome = .budgetExceeded
        ∧ short.steps = search.steps + 0 := fun hq =>
    ⟨_, rfl, by simp [stop, finish, hq], rfl⟩
  induction h generalizing budget with
  | empty => omega
  | found hq =>
    obtain rfl : budget = 0 := by omega
    exact hstop (by simp [hq])
  | next hstep _ ih =>
    cases budget with
    | zero => exact hstop hstep.queue_ne_nil
    | succ budget =>
      obtain ⟨short, hrun, hout, hsteps⟩ := ih (Nat.lt_of_succ_lt_succ hb)
      refine ⟨short, by rw [run_next hstep, hrun], hout, ?_⟩
      rw [hsteps, hstep.steps]
      omega

theorem steps_of_exhausts {search : Search} {n : Nat} {result : Result}
    (h : Exhausts query content search n result) : result.steps = search.steps + n := by
  induction h with
  | empty => rfl
  | found => rfl
  | next hstep _ ih =>
    rw [ih, hstep.steps]
    omega

end Search

/-- How many lines name a label that was not crossed. -/
def sitesBeyond (visited : List Text) : List (Text × List Script.CallSite) → Nat
  | [] => 0
  | (name, sites) :: rest =>
    (if name ∈ visited then 0 else sites.length) + sitesBeyond visited rest

theorem sitesBeyond_nil : ∀ callers : List (Text × List Script.CallSite),
    sitesBeyond [] callers = ((callers.map (·.2)).map List.length).sum
  | [] => rfl
  | (name, sites) :: rest => by simp [sitesBeyond, sitesBeyond_nil rest]

/-- Crossing one more label takes the lines that name it off. -/
theorem sitesBeyond_append {visited : List Text} {label : Text} (hl : label ∉ visited) :
    ∀ callers : List (Text × List Script.CallSite),
      sitesBeyond (visited ++ [label]) callers
          + (((callers.find? fun entry => entry.1 == label).map (·.2)).getD []).length
        ≤ sitesBeyond visited callers
  | [] => by simp [sitesBeyond]
  | (name, sites) :: rest => by
    have ih := sitesBeyond_append hl rest
    by_cases hname : name = label
    · subst hname
      simp only [sitesBeyond, hl, if_false]
      simp
      omega
    · have hiff : name ∈ visited ++ [label] ↔ name ∈ visited := by simp [hname]
      have hne : (name == label) = false := by simp [hname]
      simp only [sitesBeyond, hiff, List.find?_cons, hne]
      omega

namespace Search

/-- The places that a search has yet to take, at most. -/
def ahead (index : Script.Index) (search : Search) : Nat :=
  search.queue.length + sitesBeyond search.visited index.callers.entries

theorem ahead_start (index : Script.Index) (request : Request) :
    (start request).ahead index = 1 + index.siteCount := by
  rw [ahead, start, sitesBeyond_nil]
  rfl

/-- What is queued when a label is crossed was ahead before. -/
theorem ahead_cross (query : Query) (search : Search) (path : List Text) (label : Text) :
    (search.cross query path label).ahead query.index ≤ search.ahead query.index := by
  rcases cross_cases query search path label with ⟨-, heq⟩ | ⟨hnew, hvisited, hqueue⟩
  · rw [heq]
  · have h := sitesBeyond_append hnew query.index.callers.entries
    have hlen : (query.framesOf path label).length = (query.index.callersOf label).length := by
      simp [Query.framesOf]
    simp only [Script.Index.callersOf, Table.get?] at hlen
    simp only [ahead, hvisited, hqueue, List.length_append]
    omega

theorem ahead_pop {search : Search} {frame : Frame} {rest : List Frame}
    (hq : search.queue = frame :: rest) (index : Script.Index) :
    (search.pop rest).ahead index + 1 = search.ahead index := by
  simp only [ahead, pop_queue, pop_visited, hq, List.length_cons]
  omega

theorem Next.ahead_lt {search next : Search} (h : Next query content search next) :
    next.ahead query.index < search.ahead query.index := by
  cases h with
  | @miss frame rest hq =>
    have h := ahead_pop hq query.index
    have hm : ((search.pop rest).miss frame.file).ahead query.index
        = (search.pop rest).ahead query.index := by simp only [ahead, miss_queue, miss_visited]
    omega
  | top hq =>
    have h := ahead_pop hq query.index
    omega
  | @cross frame rest _ label hq =>
    have h := ahead_pop hq query.index
    have hc := ahead_cross query (search.pop rest) frame.path label
    omega

end Search

theorem Query.scan_of_tells : ∀ {above : List (Text × Nat)},
    (∀ p ∈ above, ∃ command, query.writerOf p.1 = .ok command) →
      ∃ stop, query.scan above = .ok stop
  | [], _ => ⟨_, rfl⟩
  | (text, n) :: above, h => by
    obtain ⟨command, hw⟩ := h (text, n) (by simp)
    unfold Query.writerOf at hw
    simp only [scan, hw]
    cases command with
    | some command => exact ⟨_, rfl⟩
    | none =>
      simp only []
      split
      · exact ⟨_, rfl⟩
      · exact scan_of_tells fun p hp => h p (by simp [hp])

/-- The first place of the queue cannot be told. -/
def Search.Stuck (query : Query) (content : Files) (search : Search) : Prop :=
  ∃ frame e, search.StuckAt query content frame e

theorem Query.TellsAll.not_stuckAt (h : query.TellsAll content) {search : Search} {frame : Frame}
    {e : Error} (hpath : ∃ found, content frame.file = .ok found) :
    ¬ search.StuckAt query content frame e := by
  rintro ⟨-, ⟨null, hc, -⟩ | ⟨lines, hc, hscan⟩⟩
  · obtain ⟨found, hfound⟩ := hpath
    cases hc.symm.trans hfound
  · have habove : ∀ p ∈ linesAbove lines frame.line, ∃ command, query.writerOf p.1 = .ok command :=
      fun p hp => h _ lines hc p.1 (List.mem_of_getElem? (mem_linesAbove.1 hp).1)
    obtain ⟨stop, hstop⟩ := Query.scan_of_tells habove
    rw [hstop] at hscan
    cases hscan

/-- A search that has a place to take meets a writer there, goes on from it, or is stuck. -/
theorem Search.next_cases (query : Query) (content : Files) {search : Search}
    (hq : search.queue ≠ []) :
    (∃ result, Exhausts query content search 1 result)
      ∨ (∃ next, Search.Next query content search next) ∨ search.Stuck query content := by
  obtain ⟨frame, rest, hq⟩ := List.exists_cons_of_ne_nil hq
  have hhead : search.queue.head? = some frame := by rw [hq, List.head?_cons]
  rcases hc : content frame.file with null | _ | lines
  · exact .inr (.inr ⟨frame, _, hhead, .inl ⟨null, hc, rfl⟩⟩)
  · exact .inr (.inl ⟨_, .miss hq hc⟩)
  rcases hscan : query.scan (linesAbove lines frame.line) with e | stop
  · exact .inr (.inr ⟨frame, e, hhead, .inr ⟨lines, hc, hscan⟩⟩)
  cases stop with
  | writer command line => exact .inl ⟨_, .found hq hc hscan⟩
  | label label => exact .inr (.inl ⟨_, .cross hq hc hscan⟩)
  | top => exact .inr (.inl ⟨_, .top hq hc hscan⟩)

/-- A search without a limit comes to its end or is stuck on the way. -/
theorem exhausts_or_stuck (query : Query) (content : Files) (search : Search) :
    (∃ n result, Exhausts query content search n result ∧ n ≤ search.ahead query.index)
      ∨ ∃ final, Relation.ReflTransGen (Search.Next query content) search final
        ∧ final.Stuck query content := by
  -- the induction is on the places ahead, of which every step takes one
  induction hk : search.ahead query.index using Nat.strong_induction_on generalizing search with
  | _ k ih =>
    by_cases hq : search.queue = []
    · exact .inl ⟨0, _, .empty hq, by omega⟩
    rcases Search.next_cases query content hq with ⟨result, hfound⟩ | ⟨next, hnext⟩ | hstuck
    · have hpos := List.length_pos_iff.2 hq
      exact .inl ⟨1, result, hfound, by unfold Search.ahead at hk; omega⟩
    · have hlt := hnext.ahead_lt
      rcases ih _ (hk ▸ hlt) next rfl with ⟨n, result, hrest, hn⟩ | ⟨final, hsteps, hstuck⟩
      · exact .inl ⟨n + 1, result, .next hnext hrest, by omega⟩
      · exact .inr ⟨final, .head hnext hsteps, hstuck⟩
    · exact .inr ⟨search, .refl, hstuck⟩

/-- What is stuck on the way from a request is so at a place that is reached. -/
theorem Search.StuckAt.reached {request : Request} {final : Search} {frame : Frame} {e : Error}
    (hsteps : Relation.ReflTransGen (Search.Next query content) (.start request) final)
    (h : final.StuckAt query content frame e) : Reached query.index content request frame := by
  obtain ⟨done, hexp⟩ := Explored.of_steps hsteps
  exact hexp.reached frame
    (List.mem_append_right done (List.mem_of_mem_head? (Option.mem_def.2 h.1)))

theorem exists_exhausts (h : query.TellsAll content) {request : Request}
    (hpaths : ∀ frame, Reached query.index content request frame →
      ∃ found, content frame.file = .ok found) :
    ∃ n result, Exhausts query content (.start request) n result
      ∧ n ≤ (Search.start request).ahead query.index := by
  rcases exhausts_or_stuck query content (.start request) with
    hend | ⟨final, hsteps, frame, e, hstuck⟩
  · exact hend
  · exact absurd hstuck (h.not_stuckAt (hpaths frame (hstuck.reached hsteps)))

theorem Exhausts.unique {search : Search} {n m : Nat} {a b : Result}
    (ha : Exhausts query content search n a) (hb : Exhausts query content search m b) :
    m = n ∧ b = a := by
  have hra := Search.run_of_exhausts ha (Nat.le_max_left n m)
  have hrb := Search.run_of_exhausts hb (Nat.le_max_right n m)
  obtain rfl : b = a := Except.ok.inj (hrb.symm.trans hra)
  have hsa := Search.steps_of_exhausts ha
  have hsb := Search.steps_of_exhausts hb
  exact ⟨by omega, rfl⟩

/-- What a search costs: it takes `n` places if there is no limit, and the result is the same with
any limit of so many. With less the search stops where the limit is. -/
structure Cost (tree : FileTree) (index : Script.Index) (schema : Schema) (request : Request)
    (n : Nat) (result : Result) : Prop where
  exhausts_iff : ∀ m other,
    Exhausts (.ofRequest index schema request) (contentOf tree) (.start request) m other
      ↔ m = n ∧ other = result
  le_sites : n ≤ 1 + index.siteCount
  steps_eq : result.steps = n
  enough : ∀ limit : Int, n ≤ limit → trace tree index schema limit request = .ok result
  short : ∀ limit : Int, limit < n → ∃ stopped, trace tree index schema limit request = .ok stopped
    ∧ stopped.outcome = .budgetExceeded ∧ stopped.command? = none
    ∧ (stopped.steps : Int) = max limit 0

theorem cost_of_tellsAll (tree : FileTree) (index : Script.Index) (schema : Schema)
    (request : Request) (h : (Query.ofRequest index schema request).TellsAll (contentOf tree))
    (hpaths : ∀ frame, Reached index (contentOf tree) request frame →
      Path.holdsNull frame.file = false) :
    ∃ n result, Cost tree index schema request n result := by
  obtain ⟨n, result, hex, hn⟩ := exists_exhausts h fun frame hr =>
    tree.exists_readLines?_iff.2 (hpaths frame hr)
  have hsteps := Search.steps_of_exhausts hex
  have hpos : 0 < n := by
    cases hex with
    | empty hq => simp [Search.start] at hq
    | found => omega
    | next => omega
  refine ⟨n, result, fun m other => ⟨hex.unique, ?_⟩, ?_, ?_, ?_, ?_⟩
  · rintro ⟨rfl, rfl⟩
    exact hex
  · rw [Search.ahead_start] at hn
    exact hn
  · rw [hsteps]
    simp [Search.start]
  · intro limit hlimit
    rw [trace_eq]
    exact Search.run_of_exhausts hex (by omega)
  · intro limit hlimit
    have hlt : limit.toNat < n := by omega
    obtain ⟨stopped, hrun, hout, hstopped⟩ := Search.run_of_short hex hlt
    refine ⟨stopped, (trace_eq ..).trans hrun, hout,
      by simp [Result.command?, hout, Outcome.finding?], ?_⟩
    rw [hstopped]
    simp [Search.start]

/-- The lines of what stands at a place. -/
def linesOf : Entry → List Text
  | .folder => []
  | .file bytes => Text.lines (Encoding.read bytes)

theorem mem_of_entryAt? {tree : FileTree} {place : Place} {bytes : Bytes}
    (h : tree.entryAt? place = some (.file bytes)) :
    (place, .file bytes) ∈ tree.entries.entries := by
  unfold FileTree.entryAt? at h
  split at h
  · cases h
  · exact Table.mem_of_get? h

/-- The lines at a path are those of a file in the tree. -/
theorem exists_entry_of_contentOf {tree : FileTree} {path : Text} {lines : List Text}
    (h : contentOf tree path = .ok (some lines)) :
    ∃ entry ∈ tree.entries.entries, lines = linesOf entry.2 := by
  replace h := FileTree.readLines?_eq_some_iff.1 h
  unfold FileTree.readLines FileTree.readText FileTree.readBytes FileTree.status at h
  rcases hl : tree.locate path with cause | place
  · rw [hl] at h
    cases h
  rw [hl] at h
  rcases he : tree.entryAt? place with _ | entry
  · simp only [he] at h
    cases h
  simp only [he] at h
  cases entry with
  | folder => cases h
  | file bytes =>
    cases h
    exact ⟨_, mem_of_entryAt? he, rfl⟩

theorem tellsAll_of_entries {tree : FileTree}
    (h : ∀ entry ∈ tree.entries.entries, ∀ text ∈ linesOf entry.2, (query.writerOf text).isOk) :
    query.TellsAll (contentOf tree) := by
  intro file lines hc text htext
  obtain ⟨entry, hentry, rfl⟩ := exists_entry_of_contentOf hc
  have hok := h entry hentry text htext
  rcases hw : query.writerOf text with e | command
  · rw [hw] at hok
    cases hok
  · exact ⟨command, rfl⟩

/-- Places are reached at paths alone if the request is at one and call sites are. -/
theorem holdsNull_of_reached {index : Script.Index} {request : Request} {frame : Frame}
    (hrequest : Path.holdsNull request.file = false)
    (hsites : ∀ sites ∈ index.callers.values, ∀ site ∈ sites, Path.holdsNull site.file = false)
    (h : Reached index content request frame) : Path.holdsNull frame.file = false := by
  rcases h.file_cases with hfile | ⟨label, site, hsite, hfile⟩ <;> rw [hfile]
  · exact hrequest
  · unfold Script.Index.callersOf at hsite
    rcases hget : index.callers.get? label with _ | sites <;> rw [hget] at hsite
    · cases hsite
    · exact hsites sites (List.mem_map_of_mem (Table.mem_of_get? hget)) site hsite

theorem cost_of_tellsAll_fork :
    (Query.ofRequest (indexOf forkScripts) setSchema ⟨"t", 9, 0, 1⟩).TellsAll
        (contentOf (treeOf forkScripts))
      ∧ (∀ frame, Reached (indexOf forkScripts) (contentOf (treeOf forkScripts)) ⟨"t", 9, 0, 1⟩
        frame → Path.holdsNull frame.file = false)
      ∧ Cost (treeOf forkScripts) (indexOf forkScripts) setSchema ⟨"t", 9, 0, 1⟩ 2
        ⟨.resolved ⟨"SET", "a", 1, ["T".toList]⟩, 2, []⟩ := by
  have htells : (Query.ofRequest (indexOf forkScripts) setSchema ⟨"t", 9, 0, 1⟩).TellsAll
      (contentOf (treeOf forkScripts)) := tellsAll_of_entries (by decide +kernel)
  have hpaths : ∀ frame, Reached (indexOf forkScripts) (contentOf (treeOf forkScripts))
      ⟨"t", 9, 0, 1⟩ frame → Path.holdsNull frame.file = false :=
    fun _ hr => holdsNull_of_reached (by decide) (by decide +kernel) hr
  obtain ⟨n, result, hcost⟩ := cost_of_tellsAll (treeOf forkScripts) (indexOf forkScripts) setSchema
    ⟨"t", 9, 0, 1⟩ htells hpaths
  have hsites : (indexOf forkScripts).siteCount = 2 := by decide +kernel
  have hn := hcost.le_sites
  have htrace : trace (treeOf forkScripts) (indexOf forkScripts) setSchema 3 ⟨"t", 9, 0, 1⟩
      = .ok ⟨.resolved ⟨"SET", "a", 1, ["T".toList]⟩, 2, []⟩ := by decide +kernel
  obtain rfl := Except.ok.inj (htrace.symm.trans (hcost.enough 3 (by omega)))
  obtain rfl := hcost.steps_eq
  exact ⟨htells, hpaths, hcost⟩

end Trace

end Dialogue
