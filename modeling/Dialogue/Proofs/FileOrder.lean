import Dialogue.Proofs.Corpus
import Dialogue.Proofs.SearchBudget

/-!
# The order of the scripts does not matter

Scripts in another order give an index with the same declarations and call sites in another order
(`Records.sameLabels`). A search then takes its places in another order, but the same ones are
reached over the same labels (`Reached.of_subset`), and it ends at one of the nearest writers, if
any is reached. How many labels lie in front of these depends on the places alone (`Nearest`), so
both searches end alike.
-/

namespace Dialogue

namespace Script

/-- Two indexes know the same of all labels, but for the order. -/
structure SameLabels (first second : Index) : Prop where
  names : ∀ name, first.contains name = second.contains name
  duplicates : ∀ name,
    Option.Rel List.Perm (first.duplicates.get? name) (second.duplicates.get? name)
  callers : ∀ label, (first.callersOf label).Perm (second.callersOf label)

theorem Records.sameLabels {first second : Index} {declarations others : List Definition}
    {sites callers : List CallSite} (h : Records first declarations sites)
    (h' : Records second others callers) (hd : declarations.Perm others)
    (hs : sites.Perm callers) : SameLabels first second where
  names name := by
    rw [Bool.eq_iff_iff, h.contains_iff, h'.contains_iff]
    exact exists_congr fun d => and_congr_left fun _ => hd.mem_iff
  duplicates name := by
    have hname : (declarationsOf name declarations).Perm (declarationsOf name others) := hd.filter _
    rw [h.duplicates, h'.duplicates, hname.length_eq]
    split_ifs
    · exact .some hname
    · exact .none
  callers label := by
    rw [h.callersOf_eq, h'.callersOf_eq]
    exact hs.filter _

theorem declaredIn_perm {first second : Corpus} (h : first.Perm second) :
    (declaredIn first).Perm (declaredIn second) :=
  h.flatMap_right _

theorem sitesIn_perm {first second : Corpus} (h : first.Perm second) :
    (sitesIn first).Perm (sitesIn second) :=
  h.flatMap_right _

theorem readable_perm (tree : FileTree) {paths other : List Text} (h : paths.Perm other) :
    (readable tree paths).Perm (readable tree other) :=
  h.filterMap _

/-- The lines that name a label are lines of the scripts. -/
theorem file_mem_of_callersOf {tree : FileTree} {paths : List Text} {index : Index} {label : Text}
    {site : CallSite} (hindex : (Index.ofFiles tree paths).2 = .ok index)
    (h : site ∈ index.callersOf label) : site.file ∈ paths := by
  rw [(records_ofFiles hindex).callersOf_eq, sitesOf, List.mem_filter] at h
  obtain ⟨script, hscript, hfile, -⟩ := mem_sitesIn.1 h.1
  exact hfile ▸ (mem_readable.1 hscript).1

end Script

namespace Trace

variable {query : Query} {content : Files} {request : Request}

theorem Reached.of_subset {first second : Script.Index} {frame : Frame}
    (h : ∀ label, first.callersOf label ⊆ second.callersOf label)
    (hr : Reached first content request frame) : Reached second content request frame := by
  induction hr with
  | origin => exact .origin
  | caller _ hc hends hsite ih => exact .caller ih hc hends (h _ hsite)

/-- How many labels lie between a request and the nearest writer that is reached from it, if one
is. -/
inductive Nearest (query : Query) (content : Files) (request : Request) :
    Option Nat → Prop
  | none (quiet : ∀ frame, Reached query.index content request frame → query.Quiet content frame) :
      Nearest query content request none
  | some {frame : Frame} (reached : Reached query.index content request frame)
      (writes : ¬ query.Quiet content frame)
      (fewest : ∀ nearer, Reached query.index content request nearer →
        nearer.path.length < frame.path.length → query.Quiet content nearer) :
      Nearest query content request (some frame.path.length)

theorem Nearest.unique {a b : Option Nat} (ha : Nearest query content request a)
    (hb : Nearest query content request b) : a = b := by
  cases ha with
  | none quiet =>
    cases hb with
    | none => rfl
    | some reached writes => exact absurd (quiet _ reached) writes
  | @some frame reached writes fewest =>
    cases hb with
    | none quiet => exact absurd (quiet _ reached) writes
    | @some other reached' writes' fewest' =>
      have hle : ¬ frame.path.length < other.path.length := fun hlt =>
        writes (fewest' _ reached hlt)
      have hge : ¬ other.path.length < frame.path.length := fun hlt =>
        writes' (fewest _ reached' hlt)
      rw [Nat.le_antisymm (Nat.le_of_not_lt hge) (Nat.le_of_not_lt hle)]

/-- What is nearest does not depend on the order of the call sites. -/
theorem Nearest.of_sameLabels {first second : Script.Index} {schema : Schema}
    {crossings : Option Nat}
    (hsame : Script.SameLabels first second)
    (h : Nearest (.ofRequest first schema request) content request crossings) :
    Nearest (.ofRequest second schema request) content request crossings := by
  have hback : ∀ frame, Reached second content request frame →
      Reached first content request frame :=
    fun _ hr => hr.of_subset fun label => (hsame.callers label).symm.subset
  cases h with
  | none quiet => exact .none fun frame hr => quiet frame (hback frame hr)
  | some reached writes fewest =>
    exact .some (reached.of_subset fun label => (hsame.callers label).subset) writes
      fun nearer hr => fewest nearer (hback nearer hr)

/-- The labels between the request and the writer that was found. -/
def Outcome.crossings? (outcome : Outcome) : Option Nat := outcome.finding?.map (·.path.length)

/-- A search without a limit ends at a nearest writer, or has met none. -/
theorem Exhausts.nearest {done : List Frame} {search : Search} {n : Nat} {result : Result}
    (hexp : Explored query content request done search)
    (h : Exhausts query content search n result) :
    result.outcome ≠ .budgetExceeded ∧ Nearest query content request result.outcome.crossings? := by
  induction h generalizing done with
  | empty hq =>
    exact ⟨nofun, .none fun frame hr => hexp.quiet_of_reached hr (by simp [hq])⟩
  | @found search frame rest lines command line hq hc hscan =>
    obtain ⟨text, hregion, hw, -⟩ := Query.scan_of_writer hscan
    refine ⟨nofun, .some (hexp.reached frame (by simp [hq])) (fun hquiet => ?_)
      fun nearer hr hlt => hexp.quiet_of_nearer hq hr hlt⟩
    rw [hquiet lines hc line text hregion] at hw
    cases hw
  | next hnext _ ih =>
    obtain ⟨done', hexp'⟩ := hexp.step hnext
    exact ih hexp'

/-- Two searches end alike: both unresolved, both at a writer with as many labels in front of it, or
both with the same error. -/
inductive Alike : Except Error Result → Except Error Result → Prop
  | unresolved {a b : Result} (first : a.outcome = .unresolved) (second : b.outcome = .unresolved) :
      Alike (.ok a) (.ok b)
  | resolved {a b : Result} {f g : Finding} (first : a.outcome = .resolved f)
      (second : b.outcome = .resolved g) (crossings : f.path.length = g.path.length) :
      Alike (.ok a) (.ok b)
  | failed {e : Error} : Alike (.error e) (.error e)

theorem alike_of_crossings {a b : Result} (ha : a.outcome ≠ .budgetExceeded)
    (hb : b.outcome ≠ .budgetExceeded) (h : a.outcome.crossings? = b.outcome.crossings?) :
    Alike (.ok a) (.ok b) := by
  unfold Outcome.crossings? at h
  cases ha' : a.outcome with
  | budgetExceeded => exact absurd ha' ha
  | unresolved =>
    cases hb' : b.outcome with
    | budgetExceeded => exact absurd hb' hb
    | unresolved => exact .unresolved ha' hb'
    | resolved g => simp [ha', hb', Outcome.finding?] at h
  | resolved f =>
    cases hb' : b.outcome with
    | budgetExceeded => exact absurd hb' hb
    | unresolved => simp [ha', hb', Outcome.finding?] at h
    | resolved g =>
      exact .resolved ha' hb' (by simpa [ha', hb', Outcome.finding?] using h)

/-- What stops a scan does not depend on the index. -/
theorem scan_ofRequest (first second : Script.Index) (schema : Schema) (request : Request) :
    ∀ above, (Query.ofRequest first schema request).scan above
      = (Query.ofRequest second schema request).scan above
  | [] => rfl
  | (text, line) :: above => by
    simp only [Query.scan, scan_ofRequest first second schema request above]
    rfl

/-- It can be told of every line of a file whether a command on it writes what is asked for. -/
def Tells (tree : FileTree) (schema : Schema) (request : Request) (file : Text) : Prop :=
  ∀ lines, contentOf tree file = .ok (some lines) → ∀ text ∈ lines,
    ∃ command, writer? schema request.tag (Slot.ofGroup request.group) text = .ok command

variable {tree : FileTree} {schema : Schema} {paths other : List Text}

theorem Tells.not_error {index : Script.Index} {file : Text} {lines : List Text} {line : Int}
    {e : Error} (h : Tells tree schema request file) (hc : contentOf tree file = .ok (some lines)) :
    (Query.ofRequest index schema request).scan (linesAbove lines line) ≠ .error e := by
  intro hscan
  have htold : ∀ p ∈ linesAbove lines line,
      ∃ command, writer? schema request.tag (Slot.ofGroup request.group) p.1 = .ok command :=
    fun p hp => h lines hc p.1 (List.mem_of_getElem? (mem_linesAbove.1 hp).1)
  obtain ⟨stop, hstop⟩ := (Query.ofRequest index schema request).scan_of_tells htold
  rw [hstop] at hscan
  cases hscan

theorem Tells.not_stuckAt {index : Script.Index} {search : Search} {frame : Frame} {e : Error}
    (h : Tells tree schema request frame.file) (hpath : Path.holdsNull frame.file = false) :
    ¬ search.StuckAt (.ofRequest index schema request) (contentOf tree) frame e := by
  rintro ⟨-, ⟨null, hc, -⟩ | ⟨lines, hc, hscan⟩⟩
  · rw [(tree.readLines?_eq_error_iff null).1 hc] at hpath
    cases hpath
  · exact h.not_error hc hscan

/-- A search cannot tell the place of its request. -/
def Search.StuckAtStart (tree : FileTree) (index : Script.Index) (schema : Schema)
    (request : Request)
    (e : Error) : Prop :=
  (Search.start request).StuckAt (.ofRequest index schema request) (contentOf tree)
    ⟨request.file, request.line, []⟩ e

/-- Whether a search is stuck at its start does not depend on the index. -/
theorem stuckAtStart_congr (first second : Script.Index) {e : Error} :
    Search.StuckAtStart tree first schema request e
      ↔ Search.StuckAtStart tree second schema request e := by
  unfold Search.StuckAtStart Search.StuckAt
  simp only [scan_ofRequest first second schema request]

/-- A search over an index of files of which all can be told comes to its end, or is stuck at the
place of the request, in another file. -/
theorem ends_or_stuck (hpaths : ∀ path ∈ paths, Path.holdsNull path = false)
    (htells : ∀ file ∈ paths, Tells tree schema request file)
    {index : Script.Index} (hsites : ∀ label, ∀ site ∈ index.callersOf label, site.file ∈ paths) :
    (∃ n result, Exhausts (.ofRequest index schema request) (contentOf tree) (.start request) n
        result ∧ n ≤ 1 + index.siteCount)
      ∨ ∃ e, Search.StuckAtStart tree index schema request e := by
  rcases exhausts_or_stuck (.ofRequest index schema request) (contentOf tree) (.start request) with
    ⟨n, result, hex, hn⟩ | ⟨final, hsteps, frame, e, hstuck⟩
  · rw [Search.ahead_start] at hn
    exact .inl ⟨n, result, hex, hn⟩
  · cases hstuck.reached hsteps with
    | origin => exact .inr ⟨e, rfl, hstuck.2⟩
    | @caller _ _ label site _ _ _ hsite =>
      have hfile := hsites label site hsite
      exact absurd hstuck ((htells site.file hfile).not_stuckAt (hpaths site.file hfile))

theorem trace_of_stuck {index : Script.Index} {e : Error} {limit : Int} (hlimit : 0 < limit)
    (h : Search.StuckAtStart tree index schema request e) :
    trace tree index schema limit request = .error e := by
  obtain ⟨budget, hbudget⟩ : ∃ budget, limit.toNat = budget + 1 := ⟨limit.toNat - 1, by omega⟩
  rw [trace_eq, hbudget]
  exact Search.run_of_stuckAt h budget

/-- Scripts in another order are known alike: the same labels are declared, those that are declared
again with the same declarations, and the same lines name them. With a limit above the number of
these lines a search over them ends alike, and it has a result if all can be told of the file where
the placeholder is shown. -/
theorem alike_of_perm (hperm : paths.Perm other)
    (hpaths : ∀ path ∈ paths, Path.holdsNull path = false)
    (htells : ∀ file ∈ paths, Tells tree schema request file) :
    ∃ first second, (Script.Index.ofFiles tree paths).2 = .ok first
      ∧ (Script.Index.ofFiles tree other).2 = .ok second
      ∧ Script.SameLabels first second
      ∧ ∀ limit : Int, first.siteCount < limit →
        Alike (trace tree first schema limit request) (trace tree second schema limit request)
          ∧ (Path.holdsNull request.file = false → Tells tree schema request request.file →
            ∃ result, trace tree first schema limit request = .ok result) := by
  obtain ⟨first, hfirst⟩ := Script.Index.exists_ofFiles_iff.2 hpaths
  obtain ⟨second, hsecond⟩ := Script.Index.exists_ofFiles_iff.2 fun path hpath =>
    hpaths path (hperm.mem_iff.2 hpath)
  refine ⟨first, second, hfirst, hsecond, ?_⟩
  have hrecords := Script.records_ofFiles hfirst
  have hrecords' := Script.records_ofFiles hsecond
  have hreadable := Script.readable_perm tree hperm
  have hsites := Script.sitesIn_perm hreadable
  have hsame := hrecords.sameLabels hrecords' (Script.declaredIn_perm hreadable) hsites
  have hcount : first.siteCount = second.siteCount :=
    hrecords.kept.trans (hsites.length_eq.trans hrecords'.kept.symm)
  have hfile : ∀ label, ∀ site ∈ first.callersOf label, site.file ∈ paths :=
    fun _ _ => Script.file_mem_of_callersOf hfirst
  have hfile' : ∀ label, ∀ site ∈ second.callersOf label, site.file ∈ paths :=
    fun _ _ hsite => hperm.mem_iff.2 (Script.file_mem_of_callersOf hsecond hsite)
  refine ⟨hsame, fun limit hlimit => ?_⟩
  rcases ends_or_stuck hpaths htells hfile with ⟨n, a, hex, hn⟩ | ⟨e, hstuck⟩
  · have hdone : trace tree first schema limit request = .ok a :=
      (trace_eq ..).trans (Search.run_of_exhausts hex (by omega))
    refine ⟨?_, fun _ _ => ⟨a, hdone⟩⟩
    rcases ends_or_stuck hpaths htells hfile' with ⟨m, b, hex', hm⟩ | ⟨e, hstuck⟩
    · have hdone' : trace tree second schema limit request = .ok b :=
        (trace_eq ..).trans (Search.run_of_exhausts hex' (by omega))
      obtain ⟨ha, hnearest⟩ := hex.nearest .start
      obtain ⟨hb, hnearest'⟩ := hex'.nearest .start
      rw [hdone, hdone']
      exact alike_of_crossings ha hb ((hnearest.of_sameLabels hsame).unique hnearest')
    · rw [trace_of_stuck (by omega) ((stuckAtStart_congr first second).2 hstuck)] at hdone
      cases hdone
  · rw [trace_of_stuck (by omega) hstuck,
      trace_of_stuck (by omega) ((stuckAtStart_congr first second).1 hstuck)]
    exact ⟨.failed, fun hpath htold => absurd hstuck (htold.not_stuckAt hpath)⟩

/-- The index of the scripts at some paths, where there is one. -/
def indexAt (tree : FileTree) (paths : List Text) : Script.Index :=
  (Script.Index.ofFiles tree paths).2.toOption.getD {}

/-- Each of the two scripts that jump to the shown label has a writer, and it is found in the one
that comes first. -/
theorem alike_of_perm_fork :
    ["a".toList, "b".toList, "t".toList].Perm ["t".toList, "b".toList, "a".toList]
      ∧ (∀ path ∈ ["a".toList, "b".toList, "t".toList], Path.holdsNull path = false)
      ∧ (∀ file ∈ ["a".toList, "b".toList, "t".toList],
        Tells (treeOf forkScripts) setSchema ⟨"t", 9, 0, 1⟩ file)
      ∧ ((indexAt (treeOf forkScripts) ["a".toList, "b".toList, "t".toList]).siteCount : Int) < 3
      ∧ Script.SameLabels (indexAt (treeOf forkScripts) ["a".toList, "b".toList, "t".toList])
        (indexAt (treeOf forkScripts) ["t".toList, "b".toList, "a".toList])
      ∧ Alike (.ok ⟨.resolved ⟨"SET", "a", 1, ["T".toList]⟩, 2, []⟩)
        (.ok ⟨.resolved ⟨"SET", "b", 0, ["T".toList]⟩, 2, []⟩) := by
  have hperm : ["a".toList, "b".toList, "t".toList].Perm ["t".toList, "b".toList, "a".toList] := by
    decide
  have hpaths : ∀ path ∈ ["a".toList, "b".toList, "t".toList], Path.holdsNull path = false := by
    decide
  have hall : (Query.ofRequest {} setSchema ⟨"t", 9, 0, 1⟩).TellsAll
      (contentOf (treeOf forkScripts)) := tellsAll_of_entries (by decide +kernel)
  have htells : ∀ file ∈ ["a".toList, "b".toList, "t".toList],
      Tells (treeOf forkScripts) setSchema ⟨"t", 9, 0, 1⟩ file := fun file _ => hall file
  have hlimit : ((indexAt (treeOf forkScripts)
      ["a".toList, "b".toList, "t".toList]).siteCount : Int) < 3 := by decide +kernel
  have hdone : trace (treeOf forkScripts)
      (indexAt (treeOf forkScripts) ["a".toList, "b".toList, "t".toList]) setSchema 3
      ⟨"t", 9, 0, 1⟩ = .ok ⟨.resolved ⟨"SET", "a", 1, ["T".toList]⟩, 2, []⟩ := by decide +kernel
  have hdone' : trace (treeOf forkScripts)
      (indexAt (treeOf forkScripts) ["t".toList, "b".toList, "a".toList]) setSchema 3
      ⟨"t", 9, 0, 1⟩ = .ok ⟨.resolved ⟨"SET", "b", 0, ["T".toList]⟩, 2, []⟩ := by decide +kernel
  obtain ⟨first, second, hfirst, hsecond, hsame, halike⟩ := alike_of_perm hperm hpaths htells
  have hindex : indexAt (treeOf forkScripts) ["a".toList, "b".toList, "t".toList] = first := by
    rw [indexAt, hfirst]
    rfl
  have hindex' : indexAt (treeOf forkScripts) ["t".toList, "b".toList, "a".toList] = second := by
    rw [indexAt, hsecond]
    rfl
  rw [hindex] at hlimit hdone ⊢
  rw [hindex'] at hdone' ⊢
  have h := (halike 3 hlimit).1
  rw [hdone, hdone'] at h
  exact ⟨hperm, hpaths, htells, hlimit, hsame, h⟩

end Trace

end Dialogue
