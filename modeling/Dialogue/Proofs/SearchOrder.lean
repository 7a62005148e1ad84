import Dialogue.Proofs.SearchSteps
import Mathlib.Data.Nat.Basic

/-!
# The search is exhaustive and takes near places first

The queue of a search is ordered by the labels that were crossed, and spans at most one crossing
(`Explored`). A label is expanded for the first place that ends at it, and no later place is nearer,
so what is reached over any label is reached from there with no more crossings. Hence every place
nearer than what is queued has been read (`Explored.read_of_reached`).
-/

namespace Dialogue.Trace

variable {query : Query} {content : Files} {request : Request}

/-- A frame stands at a line that names a label. -/
def Frame.At (frame : Frame) (site : Script.CallSite) : Prop :=
  frame.file = site.file ∧ frame.line = site.line

/-- What a search has done when the frames in `done` were read. -/
structure Explored (query : Query) (content : Files) (request : Request)
    (done : List Frame) (search : Search) : Prop where
  origin : ⟨request.file, request.line, []⟩ ∈ done ++ search.queue
  reached : ∀ frame ∈ done ++ search.queue, Reached query.index content request frame
  quiet : ∀ frame ∈ done, query.Quiet content frame
  ordered : search.queue.Pairwise fun a b =>
    a.path.length ≤ b.path.length ∧ b.path.length ≤ a.path.length + 1
  /-- What names a visited label is at most one crossing past anything that is queued. -/
  expanded : ∀ label ∈ search.visited, ∀ site ∈ query.index.callersOf label,
    ∃ next ∈ done ++ search.queue, next.At site
      ∧ ∀ frame ∈ search.queue, next.path.length ≤ frame.path.length + 1
  closed : ∀ frame ∈ done, ∀ lines label, content frame.file = .ok (some lines) →
    EndsAt lines frame.line label → ∀ site ∈ query.index.callersOf label,
      ∃ next ∈ done ++ search.queue, next.At site ∧ next.path.length ≤ frame.path.length + 1

namespace Explored

theorem start : Explored query content request [] (Search.start request) where
  origin := by simp [Search.start]
  reached := by
    intro frame h
    simp only [Search.start, List.nil_append, List.mem_singleton] at h
    exact h ▸ .origin
  quiet := by simp
  ordered := by simp [Search.start]
  expanded := by simp [Search.start]
  closed := by simp

variable {done rest : List Frame} {frame : Frame} {search : Search}

/-- Every place with fewer crossings than all that is queued has been read, with no more crossings
than it needs. -/
theorem read_of_reached (h : Explored query content request done search) {frame : Frame}
    (hr : Reached query.index content request frame)
    (hnear : ∀ queued ∈ search.queue, frame.path.length < queued.path.length) :
    ∃ read ∈ done, read.file = frame.file ∧ read.line = frame.line
      ∧ read.path.length ≤ frame.path.length := by
  have hdone : ∀ next ∈ done ++ search.queue, next.path.length ≤ frame.path.length →
      next ∈ done := by
    intro next hmem hlen
    rcases List.mem_append.1 hmem with hmem | hmem
    · exact hmem
    · exact absurd (hnear next hmem) (by omega)
  induction hr with
  | origin => exact ⟨_, hdone _ h.origin le_rfl, rfl, rfl, le_rfl⟩
  | @caller frame lines label site _ hc hends hsite ih =>
    simp only [List.length_cons] at hnear hdone ⊢
    obtain ⟨read, hread, hfile, hline, hlen⟩ :=
      ih (fun queued hq => Nat.lt_trans (Nat.lt_succ_self _) (hnear queued hq))
        (fun next hmem hle => hdone next hmem (by omega))
    obtain ⟨next, hnext, hat, hle⟩ :=
      h.closed read hread lines label (hfile ▸ hc) (hline ▸ hends) site hsite
    exact ⟨next, hdone next hnext (by omega), hat.1, hat.2, by omega⟩

/-- A place with fewer crossings than all that is queued has no writer above it. -/
theorem quiet_of_reached (h : Explored query content request done search) {frame : Frame}
    (hr : Reached query.index content request frame)
    (hnear : ∀ queued ∈ search.queue, frame.path.length < queued.path.length) :
    query.Quiet content frame := by
  obtain ⟨read, hread, hfile, hline, -⟩ := h.read_of_reached hr hnear
  have hq := h.quiet read hread
  unfold Query.Quiet at hq ⊢
  rwa [hfile, hline] at hq

/-- A place with fewer crossings than the first one of the queue has no writer above it. -/
theorem quiet_of_nearer (h : Explored query content request done search)
    (hq : search.queue = frame :: rest) {nearer : Frame}
    (hr : Reached query.index content request nearer)
    (hlt : nearer.path.length < frame.path.length) : query.Quiet content nearer := by
  refine h.quiet_of_reached hr fun queued hmem => ?_
  have hord := h.ordered
  rw [hq] at hmem hord
  rcases List.mem_cons.1 hmem with rfl | hmem
  · exact hlt
  · exact Nat.lt_of_lt_of_le hlt ((List.pairwise_cons.1 hord).1 queued hmem).1

/-- Reading the first place of the queue, where nothing is expanded for it: its region has no
writer, and if it ends at a label then at one that was visited. -/
theorem pop (h : Explored query content request done search) (hq : search.queue = frame :: rest)
    {next : Search} (hqueue : next.queue = rest) (hvisited : next.visited = search.visited)
    (hquiet : query.Quiet content frame)
    (hends : ∀ lines label, content frame.file = .ok (some lines) → EndsAt lines frame.line label →
      label ∈ search.visited) :
    Explored query content request (done ++ [frame]) next := by
  have hall : done ++ [frame] ++ next.queue = done ++ search.queue := by simp [hq, hqueue]
  have hord := h.ordered
  rw [hq, List.pairwise_cons] at hord
  constructor
  · rw [hall]
    exact h.origin
  · rw [hall]
    exact h.reached
  · intro read hread
    rcases List.mem_append.1 hread with hread | hread
    · exact h.quiet read hread
    · exact List.mem_singleton.1 hread ▸ hquiet
  · rw [hqueue]
    exact hord.2
  · intro label hlabel site hsite
    obtain ⟨f, hf, hat, hle⟩ := h.expanded label (hvisited ▸ hlabel) site hsite
    rw [hall]
    exact ⟨f, hf, hat, fun queued hmem => hle queued (by simp [hq, ← hqueue, hmem])⟩
  · intro read hread lines label hc hend site hsite
    rw [hall]
    rcases List.mem_append.1 hread with hread | hread
    · exact h.closed read hread lines label hc hend site hsite
    · obtain rfl := List.mem_singleton.1 hread
      obtain ⟨f, hf, hat, hle⟩ := h.expanded label (hends lines label hc hend) site hsite
      exact ⟨f, hf, hat, hle read (by simp [hq])⟩

/-- Expanding a label for the place that was just read. -/
theorem expand {lines : List Text} {label : Text}
    (h : Explored query content request done search) (hq : search.queue = frame :: rest)
    {next : Search} (hqueue : next.queue = rest ++ query.framesOf frame.path label)
    (hvisited : next.visited = search.visited ++ [label]) (hquiet : query.Quiet content frame)
    (hc : content frame.file = .ok (some lines)) (hend : EndsAt lines frame.line label) :
    Explored query content request (done ++ [frame]) next := by
  have hall : done ++ [frame] ++ next.queue
      = (done ++ search.queue) ++ query.framesOf frame.path label := by simp [hq, hqueue]
  have hold : ∀ {f}, f ∈ done ++ search.queue → f ∈ done ++ [frame] ++ next.queue :=
    fun hf => hall ▸ List.mem_append_left _ hf
  have hnew : ∀ site ∈ query.index.callersOf label,
      ⟨site.file, site.line, label :: frame.path⟩ ∈ done ++ [frame] ++ next.queue := fun site hs =>
    hall ▸ List.mem_append_right _ (mem_framesOf.2 ⟨site, hs, rfl⟩)
  have hlen : ∀ queued ∈ next.queue,
      queued ∈ rest ∨ queued.path.length = frame.path.length + 1 := by
    intro queued hmem
    rw [hqueue] at hmem
    rcases List.mem_append.1 hmem with hmem | hmem
    · exact .inl hmem
    · obtain ⟨site, -, rfl⟩ := mem_framesOf.1 hmem
      exact .inr rfl
  have hord := h.ordered
  rw [hq, List.pairwise_cons] at hord
  have hpast : ∀ queued ∈ next.queue, frame.path.length ≤ queued.path.length := by
    intro queued hmem
    rcases hlen queued hmem with hmem | heq
    · exact (hord.1 queued hmem).1
    · omega
  constructor
  · exact hold h.origin
  · rw [hall]
    intro f hf
    rcases List.mem_append.1 hf with hf | hf
    · exact h.reached f hf
    · obtain ⟨site, hsite, rfl⟩ := mem_framesOf.1 hf
      exact .caller (h.reached frame (by simp [hq])) hc hend hsite
  · intro read hread
    rcases List.mem_append.1 hread with hread | hread
    · exact h.quiet read hread
    · exact List.mem_singleton.1 hread ▸ hquiet
  · rw [hqueue, List.pairwise_append]
    refine ⟨hord.2, ?_, ?_⟩
    · refine List.pairwise_of_forall_mem_list fun a ha b hb => ?_
      obtain ⟨_, -, rfl⟩ := mem_framesOf.1 ha
      obtain ⟨_, -, rfl⟩ := mem_framesOf.1 hb
      simp
    · intro a ha b hb
      obtain ⟨_, -, rfl⟩ := mem_framesOf.1 hb
      have := hord.1 a ha
      simp only [List.length_cons]
      omega
  · intro other hother site hsite
    rw [hvisited] at hother
    rcases List.mem_append.1 hother with hother | hother
    · obtain ⟨f, hf, hat, hle⟩ := h.expanded other hother site hsite
      have hle' : f.path.length ≤ frame.path.length + 1 := hle frame (by simp [hq])
      exact ⟨f, hold hf, hat, fun queued hmem => by have := hpast queued hmem; omega⟩
    · obtain rfl := List.mem_singleton.1 hother
      exact ⟨_, hnew site hsite, ⟨rfl, rfl⟩, fun queued hmem => by
        have := hpast queued hmem
        simp only [List.length_cons]
        omega⟩
  · intro read hread lines' other hc' hend' site hsite
    rcases List.mem_append.1 hread with hread | hread
    · obtain ⟨f, hf, hat, hle⟩ := h.closed read hread lines' other hc' hend' site hsite
      exact ⟨f, hold hf, hat, hle⟩
    · obtain rfl := List.mem_singleton.1 hread
      obtain rfl := lines_unique hc hc'
      obtain rfl := hend.unique hend'
      exact ⟨_, hnew site hsite, ⟨rfl, rfl⟩, le_rfl⟩

theorem step {next : Search} (h : Explored query content request done search)
    (hs : Search.Next query content search next) :
    ∃ done', Explored query content request done' next := by
  cases hs with
  | @miss frame rest hq hc =>
    refine ⟨_, h.pop hq (by simp) (by simp) (fun lines hl => ?_) (fun lines _ hl => ?_)⟩
    all_goals
      rw [hc] at hl
      cases hl
  | @top frame rest lines hq hc hscan =>
    obtain ⟨hnone, hquiet⟩ := Query.scan_of_top hscan
    refine ⟨_, h.pop hq rfl rfl (fun lines' hl => ?_) (fun lines' label hl hend => ?_)⟩
    all_goals obtain rfl := lines_unique hc hl
    · exact hquiet
    · exact absurd hend (hnone label)
  | @cross frame rest lines label hq hc hscan =>
    obtain ⟨hend, hquiet⟩ := Query.scan_of_label hscan
    have hquiet' : query.Quiet content frame := by
      intro lines' hl
      obtain rfl := lines_unique hc hl
      exact hquiet
    rcases Search.cross_cases query (search.pop rest) frame.path label with
      ⟨hold, heq⟩ | ⟨-, hvisited, hqueue⟩
    · rw [heq]
      refine ⟨_, h.pop hq rfl rfl hquiet' fun lines' other hl hend' => ?_⟩
      obtain rfl := lines_unique hc hl
      exact hend.unique hend' ▸ hold
    · exact ⟨_, h.expand hq hqueue hvisited hquiet' hc hend⟩

theorem of_steps {final : Search}
    (hs : Relation.ReflTransGen (Search.Next query content) (Search.start request) final) :
    ∃ done, Explored query content request done final := by
  induction hs with
  | refl => exact ⟨[], start⟩
  | tail _ hn ih =>
    obtain ⟨done, h⟩ := ih
    exact h.step hn

end Explored

/-- A search that ends unresolved has read everything that can be reached: no region of a reached
place has a writer. -/
theorem quiet_of_unresolved {tree : FileTree} {index : Script.Index} {schema : Schema} {limit : Int}
    {request : Request} {result : Result} (h : trace tree index schema limit request = .ok result)
    (hu : result.outcome = .unresolved) {frame : Frame}
    (hr : Reached index (contentOf tree) request frame) {lines : List Text}
    (hl : contentOf tree frame.file = .ok (some lines)) {n : Nat} {text : Text}
    (hn : InRegion lines frame.line n text) :
    writer? schema request.tag (Slot.ofGroup request.group) text = .ok none := by
  obtain ⟨final, hsteps, hend⟩ := ends_of_trace h
  obtain ⟨done, hexp⟩ := Explored.of_steps hsteps
  have hempty : final.queue = [] := by
    cases hend with
    | stopped =>
      rcases hq : final.queue with _ | ⟨frame, rest⟩
      · rfl
      · simp [Search.stop, Search.finish, hq] at hu
    | found => cases hu
  exact hexp.quiet_of_reached hr (by simp [hempty]) lines hl n text hn

/-- Two scripts with a label each, which jump to the label of the other one. The second one writes
the name of another placeholder than the one that is asked for. -/
def ringScripts : List (Text × List Text) :=
  [("a", ["A:".toList, "Jump @B".toList]),
   ("b", ["B:".toList, "SET(0)".toList, "Jump @A".toList])]

/-- The command `SET` writes the name in its first argument. -/
def setSchema : Schema :=
  { hints := .ofList [(⟨.string "SET"⟩,
      { name := .string "SET", params := [{ index := .int 0, types := ["TagIndex".toList] }] })] }

def treeOf (scripts : List (Text × List Text)) : FileTree :=
  ⟨[], .ofList (scripts.map fun script =>
    ([script.1], .file (Utf8.encode (Text.unlines script.2))))⟩

def indexOf (scripts : List (Text × List Text)) : Script.Index :=
  scripts.foldl (fun index script => (index.addLines script.1 script.2).1) {}

theorem quiet_of_unresolved_ring :
    trace (treeOf ringScripts) (indexOf ringScripts) setSchema 50 ⟨"b", 1, 1, 1⟩
        = .ok ⟨.unresolved, 3, []⟩
      ∧ Reached (indexOf ringScripts) (contentOf (treeOf ringScripts)) ⟨"b", 1, 1, 1⟩
        ⟨"b", 2, ["A".toList, "B".toList]⟩
      ∧ writer? setSchema 1 .name "SET(0)" = .ok none := by
  have h : trace (treeOf ringScripts) (indexOf ringScripts) setSchema 50 ⟨"b", 1, 1, 1⟩
      = .ok ⟨.unresolved, 3, []⟩ := by decide +kernel
  have hb : contentOf (treeOf ringScripts) "b"
      = .ok (some ["B:".toList, "SET(0)".toList, "Jump @A".toList]) := by decide +kernel
  have hcontent : contentOf (treeOf ringScripts) "a"
      = .ok (some ["A:".toList, "Jump @B".toList]) := by
    decide +kernel
  have hr : Reached (indexOf ringScripts) (contentOf (treeOf ringScripts)) ⟨"b", 1, 1, 1⟩
      ⟨"b", 2, ["A".toList, "B".toList]⟩ := by
    have hB : EndsAt ["B:".toList, "SET(0)".toList, "Jump @A".toList] 1 "B" :=
      ⟨0, "B:", by decide +kernel, by decide +kernel⟩
    have hA : EndsAt ["A:".toList, "Jump @B".toList] 1 "A" :=
      ⟨0, "A:", by decide +kernel, by decide +kernel⟩
    have ha : Reached (indexOf ringScripts) (contentOf (treeOf ringScripts)) ⟨"b", 1, 1, 1⟩
        ⟨"a", 1, ["B".toList]⟩ := by
      have hsite : ⟨"a", 1, "B"⟩ ∈ (indexOf ringScripts).callersOf "B" := by decide +kernel
      exact .caller .origin hb hB hsite
    have hsite : ⟨"b", 2, "A"⟩ ∈ (indexOf ringScripts).callersOf "A" := by decide +kernel
    exact .caller ha hcontent hA hsite
  exact ⟨h, hr, quiet_of_unresolved h rfl hr hb (n := 1) (by decide +kernel)⟩

/-- A finding is at the writer nearest to a place, and no place with fewer crossings has one. -/
structure NearestWriter (query : Query) (content : Files) (request : Request)
    (finding : Finding) (frame : Frame) (lines : List Text) (text : Text) : Prop where
  reached : Reached query.index content request frame
  file_eq : frame.file = finding.file
  readable : content frame.file = .ok (some lines)
  inRegion : InRegion lines frame.line finding.line text
  writer : query.writerOf text = .ok (some finding.command)
  nearest : ∀ n other, InRegion lines frame.line n other → finding.line < n →
    query.writerOf other = .ok none
  fewest : ∀ nearer, Reached query.index content request nearer →
    nearer.path.length < frame.path.length → query.Quiet content nearer

/-- What is found first is found at a nearest writer: the queue is ordered, so every place with
fewer crossings was read before. -/
theorem Search.Ends.nearestWriter {search : Search} {result : Result} {finding : Finding}
    {done : List Frame} (hexp : Explored query content request done search)
    (hend : search.Ends query content result) (hf : result.outcome = .resolved finding) :
    ∃ frame lines text, NearestWriter query content request finding frame lines text := by
  cases hend with
  | stopped =>
    simp only [Search.stop, Search.finish] at hf
    split at hf <;> cases hf
  | @found frame rest lines command n hq hc hscan =>
    simp only [Search.finish, Outcome.resolved.injEq] at hf
    subst hf
    obtain ⟨text, hregion, hw, hnearest⟩ := Query.scan_of_writer hscan
    exact ⟨frame, lines, text, hexp.reached frame (by simp [hq]), rfl, hc, hregion, hw,
      hnearest, fun nearer hr hlt => hexp.quiet_of_nearer hq hr hlt⟩

/-- A search reads lines of the file only, and exactly those above the place; and what it resolves
to is a nearest writer. -/
theorem nearestWriter_of_resolved (tree : FileTree) (index : Script.Index) (schema : Schema)
    (limit : Int) (request : Request) :
    (∀ lines line, ∀ p : Text × Nat,
        p ∈ linesAbove lines line ↔ lines[p.2]? = some p.1 ∧ (p.2 : Int) < line)
      ∧ ∀ result finding, trace tree index schema limit request = .ok result →
        result.outcome = .resolved finding → ∃ frame lines text,
          NearestWriter (.ofRequest index schema request) (contentOf tree) request finding frame
            lines text := by
  refine ⟨fun lines line p => mem_linesAbove, fun result finding h hf => ?_⟩
  obtain ⟨final, hsteps, hend⟩ := ends_of_trace h
  obtain ⟨done, hexp⟩ := Explored.of_steps hsteps
  exact hend.nearestWriter hexp hf

/-- Two scripts with a writer each, which both jump to a label of a third one. -/
def forkScripts : List (Text × List Text) :=
  [("a", ["SET(0)".toList, "SET(0)".toList, "Jump @T".toList]),
   ("b", ["SET(0)".toList, "Jump @T".toList]), ("t", ["T:".toList, "P(0)".toList])]

theorem nearestWriter_of_resolved_fork :
    trace (treeOf forkScripts) (indexOf forkScripts) setSchema 50 ⟨"t", 9, 0, 1⟩
        = .ok ⟨.resolved ⟨"SET", "a", 1, ["T".toList]⟩, 2, []⟩
      ∧ ∃ frame lines text,
        NearestWriter (.ofRequest (indexOf forkScripts) setSchema ⟨"t", 9, 0, 1⟩)
          (contentOf (treeOf forkScripts)) ⟨"t", 9, 0, 1⟩ ⟨"SET", "a", 1, ["T".toList]⟩ frame lines
          text := by
  have h : trace (treeOf forkScripts) (indexOf forkScripts) setSchema 50 ⟨"t", 9, 0, 1⟩
      = .ok ⟨.resolved ⟨"SET", "a", 1, ["T".toList]⟩, 2, []⟩ := by decide +kernel
  exact ⟨h, (nearestWriter_of_resolved (treeOf forkScripts) (indexOf forkScripts) setSchema 50
    ⟨"t", 9, 0, 1⟩).2 _ _ h rfl⟩

end Dialogue.Trace
