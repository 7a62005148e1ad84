import Dialogue.Proofs.SearchOrder

/-!
# The labels on the way to a writer

The labels of a queued place lead to it from the request, the one crossed last in front
(`OnTheWay`). A label is crossed once, so they are all different. Read from their end, the labels of
a finding therefore lead from the request to the writer, and as they stand they do so only where
there are no two of them.
-/

namespace Dialogue.Trace

variable {query : Query} {content : Files} {request : Request}

/-- The labels that are met between two places, in the order in which they are met. The region above
a place has no writer and ends at the label, and the next place is at a line that names it. -/
inductive Walk (query : Query) (content : Files) :
    Text → Int → List Text → Text → Int → Prop
  | here {file : Text} {line : Int} : Walk query content file line [] file line
  | back {file last : Text} {line lastLine : Int} {lines labels : List Text} {label : Text}
      {site : Script.CallSite} (readable : content file = .ok (some lines))
      (ends : EndsAt lines line label)
      (quiet : ∀ n text, InRegion lines line n text → query.writerOf text = .ok none)
      (names : site ∈ query.index.callersOf label)
      (rest : Walk query content site.file site.line labels last lastLine) :
      Walk query content file line (label :: labels) last lastLine

namespace Walk

variable {file last : Text} {line lastLine : Int} {labels : List Text}

theorem snoc {lines : List Text} {label : Text} {site : Script.CallSite}
    (h : Walk query content file line labels last lastLine) (hc : content last = .ok (some lines))
    (hend : EndsAt lines lastLine label)
    (hquiet : ∀ n text, InRegion lines lastLine n text → query.writerOf text = .ok none)
    (hsite : site ∈ query.index.callersOf label) :
    Walk query content file line (labels ++ [label]) site.file site.line := by
  induction h with
  | here => exact .back hc hend hquiet hsite .here
  | back hc' hend' hquiet' hsite' _ ih => exact .back hc' hend' hquiet' hsite' (ih hc hend hquiet)

theorem eq_of_nil (h : Walk query content file line [] last lastLine) :
    last = file ∧ lastLine = line := by
  cases h
  exact ⟨rfl, rfl⟩

/-- The first label is that of the first place, wherever the walk leads. -/
theorem head_eq {a b other : Text} {otherLine : Int} {as bs : List Text}
    (ha : Walk query content file line (a :: as) last lastLine)
    (hb : Walk query content file line (b :: bs) other otherLine) : a = b := by
  cases ha with
  | back hc hend =>
    cases hb with
    | back hc' hend' =>
      obtain rfl := lines_unique hc hc'
      exact hend.unique hend'

end Walk

/-- The labels lead from the request to the finding: the writer is in the region above the place
where the walk over them ends. -/
def LeadsTo (query : Query) (content : Files) (request : Request)
    (finding : Finding) (labels : List Text) : Prop :=
  ∃ line lines text, Walk query content request.file request.line labels finding.file line
    ∧ content finding.file = .ok (some lines) ∧ InRegion lines line finding.line text
    ∧ query.writerOf text = .ok (some finding.command)

/-- The finding is in the region above the place of the request itself. -/
def Finding.InOrigin (content : Files) (request : Request) (finding : Finding) :
    Prop :=
  finding.file = request.file ∧ ∃ lines text, content request.file = .ok (some lines)
    ∧ InRegion lines request.line finding.line text

theorem reverse_of_length_le_one {path : List Text} (h : path.length ≤ 1) :
    path.reverse = path := by
  rcases path with _ | ⟨label, _ | ⟨next, rest⟩⟩
  · rfl
  · rfl
  · simp at h

/-- Different labels with one walk forwards are in the order of a walk backwards too only if there
are no two of them. -/
theorem length_le_one_of_walks {file last other : Text} {line lastLine otherLine : Int} :
    ∀ {path : List Text}, path.Nodup → Walk query content file line path.reverse last lastLine →
      Walk query content file line path other otherLine → path.length ≤ 1
  | [], _, _, _ => by simp
  | [_], _, _, _ => by simp
  | first :: second :: rest, hnodup, hback, hfront => by
    -- the walk backwards starts with the last label, which is not the first one
    obtain ⟨label, labels, hlabels⟩ := List.exists_cons_of_ne_nil
      (List.reverse_eq_nil_iff.not.2 (List.cons_ne_nil second rest))
    rw [List.reverse_cons, hlabels, List.cons_append] at hback
    have hmem : label ∈ second :: rest := List.mem_reverse.1 (hlabels ▸ List.mem_cons_self)
    exact absurd (hfront.head_eq hback ▸ hmem) (List.nodup_cons.1 hnodup).1

/-- What is known of the labels of a queued place. -/
structure OnTheWay (query : Query) (content : Files) (request : Request)
    (visited : List Text) (frame : Frame) : Prop where
  walk : Walk query content request.file request.line frame.path.reverse frame.file frame.line
  nodup : frame.path.Nodup
  visited : frame.path ⊆ visited

theorem OnTheWay.of_subset {visited more : List Text} {frame : Frame}
    (h : OnTheWay query content request visited frame) (hs : visited ⊆ more) :
    OnTheWay query content request more frame :=
  ⟨h.walk, h.nodup, List.Subset.trans h.visited hs⟩

/-- Crossing a label for the first time queues places that it leads to. -/
theorem OnTheWay.cross {visited lines : List Text} {frame next : Frame} {label : Text}
    (h : OnTheWay query content request visited frame) (hc : content frame.file = .ok (some lines))
    (hscan : query.scan (linesAbove lines frame.line) = .ok (.label label))
    (hnew : label ∉ visited) (hnext : next ∈ query.framesOf frame.path label) :
    OnTheWay query content request (visited ++ [label]) next := by
  obtain ⟨hend, hquiet⟩ := Query.scan_of_label hscan
  obtain ⟨site, hsite, rfl⟩ := mem_framesOf.1 hnext
  refine ⟨?_, List.nodup_cons.2 ⟨fun hmem => hnew (h.visited hmem), h.nodup⟩, ?_⟩
  · rw [List.reverse_cons]
    exact h.walk.snoc hc hend hquiet hsite
  · refine List.cons_subset.2 ⟨by simp, ?_⟩
    exact List.Subset.trans h.visited (List.subset_append_left _ _)

namespace Search

theorem Next.onTheWay {search next : Search} (h : Next query content search next)
    (hall : ∀ frame ∈ search.queue, OnTheWay query content request search.visited frame) :
    ∀ frame ∈ next.queue, OnTheWay query content request next.visited frame := by
  cases h with
  | @miss frame rest hq =>
    intro queued hmem
    rw [miss_queue, pop_queue] at hmem
    rw [miss_visited, pop_visited]
    exact hall queued (by simp [hq, hmem])
  | top hq =>
    intro queued hmem
    rw [pop_queue] at hmem
    exact hall queued (by simp [hq, hmem])
  | @cross frame rest lines label hq hc hscan =>
    have hrest : ∀ queued ∈ rest, OnTheWay query content request search.visited queued :=
      fun queued hmem => hall queued (by simp [hq, hmem])
    rcases cross_cases query (search.pop rest) frame.path label with
      ⟨-, heq⟩ | ⟨hnew, hvisited, hqueue⟩
    · rw [heq]
      exact hrest
    · intro queued hmem
      rw [hqueue] at hmem
      rw [hvisited]
      rcases List.mem_append.1 hmem with hmem | hmem
      · exact (hrest queued hmem).of_subset (List.subset_append_left _ _)
      · exact (hall frame (by simp [hq])).cross hc hscan hnew hmem

theorem onTheWay_of_steps {final : Search}
    (hs : Relation.ReflTransGen (Next query content) (start request) final) :
    ∀ frame ∈ final.queue, OnTheWay query content request final.visited frame := by
  induction hs with
  | refl =>
    intro frame hmem
    obtain rfl := List.mem_singleton.1 hmem
    exact ⟨.here, List.nodup_nil, List.nil_subset _⟩
  | tail _ hn ih => exact hn.onTheWay ih

end Search

/-- A writer in the region of the request is found there: before any other place is read, that
region is, and it would have had none. -/
theorem path_eq_nil_of_inOrigin {done : List Frame} {search : Search} {frame : Frame}
    {rest : List Frame} {finding : Finding} {text : Text} {lines : List Text}
    (hexp : Explored query content request done search) (hq : search.queue = frame :: rest)
    (hc : content finding.file = .ok (some lines)) (htext : lines[finding.line]? = some text)
    (hw : query.writerOf text = .ok (some finding.command))
    (hin : finding.InOrigin content request) : frame.path = [] := by
  obtain ⟨hfile, origin, other, horigin, hregion⟩ := hin
  obtain rfl := lines_unique (hfile ▸ hc) horigin
  obtain rfl := Option.some.inj (hregion.text_eq.symm.trans htext)
  by_contra hne
  have hquiet := hexp.quiet_of_nearer hq .origin (List.length_pos_iff.2 hne)
  rw [hquiet _ horigin _ _ hregion] at hw
  cases hw

/-- The labels of a finding lead to it from the request when they are read from their end, so they
are in the order of the way only where there are no two of them. There are none exactly where the
writer is in the region of the request. -/
theorem leadsTo_reverse_of_resolved {tree : FileTree} {index : Script.Index} {schema : Schema}
    {limit : Int} {request : Request} {result : Result} {finding : Finding}
    (h : trace tree index schema limit request = .ok result)
    (hf : result.outcome = .resolved finding) :
    LeadsTo (.ofRequest index schema request) (contentOf tree) request finding finding.path.reverse
      ∧ (LeadsTo (.ofRequest index schema request) (contentOf tree) request finding finding.path
        ↔ finding.path.length ≤ 1)
      ∧ (finding.path = [] ↔ finding.InOrigin (contentOf tree) request) := by
  obtain ⟨final, hsteps, hend⟩ := ends_of_trace h
  obtain ⟨done, hexp⟩ := Explored.of_steps hsteps
  have hway := Search.onTheWay_of_steps hsteps
  cases hend with
  | stopped =>
    simp only [Search.stop, Search.finish] at hf
    split at hf <;> cases hf
  | @found frame rest lines command n hq hc hscan =>
    simp only [Search.finish, Outcome.resolved.injEq] at hf
    subst hf
    obtain ⟨text, hregion, hw, -⟩ := Query.scan_of_writer hscan
    have hframe := hway frame (by simp [hq])
    have hback : LeadsTo (.ofRequest index schema request) (contentOf tree) request
        ⟨command, frame.file, n, frame.path⟩ frame.path.reverse :=
      ⟨frame.line, lines, text, hframe.walk, hc, hregion, hw⟩
    refine ⟨hback, ⟨?_, fun hle => ?_⟩, ⟨fun (hnil : frame.path = []) => ?_, fun hin => ?_⟩⟩
    · rintro ⟨_, _, _, hwalk, -⟩
      exact length_le_one_of_walks hframe.nodup hframe.walk hwalk
    · have hrev : frame.path.reverse = frame.path := reverse_of_length_le_one hle
      exact hrev ▸ hback
    · obtain ⟨hfile, hline⟩ := (hnil ▸ hframe.walk).eq_of_nil
      exact ⟨hfile, lines, text, hfile ▸ hc, hline ▸ hregion⟩
    · exact path_eq_nil_of_inOrigin hexp hq hc hregion.text_eq hw hin

/-- A script that shows the placeholder, one that jumps there, and one that writes and jumps to the
second one. -/
def chainScripts : List (Text × List Text) :=
  [("t", ["T:".toList, "P(0)".toList]), ("m", ["M:".toList, "Jump @T".toList]),
   ("w", ["W:".toList, "SET(0)".toList, "Jump @M".toList])]

theorem leadsTo_reverse_of_resolved_chain :
    trace (treeOf chainScripts) (indexOf chainScripts) setSchema 50 ⟨"t", 1, 0, 1⟩
        = .ok ⟨.resolved ⟨"SET", "w", 1, ["M".toList, "T".toList]⟩, 3, []⟩
      ∧ LeadsTo (.ofRequest (indexOf chainScripts) setSchema ⟨"t", 1, 0, 1⟩)
        (contentOf (treeOf chainScripts)) ⟨"t", 1, 0, 1⟩
        ⟨"SET", "w", 1, ["M".toList, "T".toList]⟩ ["T".toList, "M".toList] := by
  have h : trace (treeOf chainScripts) (indexOf chainScripts) setSchema 50 ⟨"t", 1, 0, 1⟩
      = .ok ⟨.resolved ⟨"SET", "w", 1, ["M".toList, "T".toList]⟩, 3, []⟩ := by decide +kernel
  exact ⟨h, (leadsTo_reverse_of_resolved h rfl).1⟩

/-- As they stand the labels of this finding do not lead to it: the first one would have to be that
of the request's region. -/
theorem not_leadsTo_of_chain :
    trace (treeOf chainScripts) (indexOf chainScripts) setSchema 50 ⟨"t", 1, 0, 1⟩
        = .ok ⟨.resolved ⟨"SET", "w", 1, ["M".toList, "T".toList]⟩, 3, []⟩
      ∧ ¬ LeadsTo (.ofRequest (indexOf chainScripts) setSchema ⟨"t", 1, 0, 1⟩)
        (contentOf (treeOf chainScripts)) ⟨"t", 1, 0, 1⟩
        ⟨"SET", "w", 1, ["M".toList, "T".toList]⟩ ["M".toList, "T".toList] := by
  refine ⟨by decide +kernel, ?_⟩
  rintro ⟨line, lines, text, hwalk, -⟩
  cases hwalk with
  | back hc hend =>
    have hcontent : contentOf (treeOf chainScripts) "t"
        = .ok (some ["T:".toList, "P(0)".toList]) := by
      decide +kernel
    obtain rfl := lines_unique hcontent hc
    have hT : EndsAt ["T:".toList, "P(0)".toList] 1 "T" :=
      ⟨0, "T:", by decide +kernel, by decide +kernel⟩
    exact absurd (hend.unique hT) (by decide)

end Dialogue.Trace
