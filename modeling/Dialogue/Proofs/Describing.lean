import Mathlib.Data.List.Basic
import Mathlib.Data.List.Induction
import Mathlib.Data.List.Nodup
import Dialogue.Proofs.SearchOrder
import Dialogue.Proofs.Tables
import Dialogue.Workspace.Basic

/-!
# Describing a message

A description asks for each distinct placeholder once and looks the names up where they are shown.
It reads as if every occurrence were traced where it stands, and the requests are written down to
say that none is made twice (`describe_eq_shown`).
-/

namespace Dialogue

namespace Script

theorem nextPending_ne_nil {pending : Pending} {c : Char} (h : ∀ p ∈ pending, p.1 ≠ []) :
    ∀ p ∈ nextPending pending c, p.1 ≠ [] := by
  unfold nextPending
  split
  · split
    · simp
    · split <;> simp
  · split
    · intro p hp
      obtain ⟨q, hq, rfl⟩ := Option.map_eq_some_iff.1 hp
      exact h q hq
    · simp

theorem openingsFrom_name_ne_nil : ∀ {line : Text} {offset : Nat} {inside : Bool}
    {pending : Pending}, (∀ p ∈ pending, p.1 ≠ []) →
      ∀ o ∈ openingsFrom offset inside pending line, o.name ≠ []
  | [], _, _, _, _, o, ho => by simp [openingsFrom] at ho
  | c :: line, offset, inside, pending, h, o, ho => by
    simp only [openingsFrom] at ho
    split at ho
    · rcases List.mem_cons.1 ho with rfl | ho
      · exact h _ rfl
      · exact openingsFrom_name_ne_nil (nextPending_ne_nil h) o ho
    · exact openingsFrom_name_ne_nil (nextPending_ne_nil h) o ho

theorem invocations_name_ne_nil {line : Text} {call : Invocation} (h : call ∈ invocations line) :
    call.name ≠ [] := by
  obtain ⟨o, ho, rfl⟩ := List.mem_map.1 h
  have hopening : o ∈ openings line := List.mem_of_mem_take (List.mem_filter.1 ho).1
  have hnone : ∀ p ∈ (none : Pending), p.1 ≠ [] := by simp
  exact openingsFrom_name_ne_nil hnone o hopening

end Script

namespace Trace

theorem mem_of_firstWriter? {schema : Schema} {tag : Int} {slot : Slot} {command : Text} :
    ∀ {invocations : List Script.Invocation},
      firstWriter? schema tag slot invocations = .ok (some command) →
        ∃ call ∈ invocations, call.name = command
  | [], h => by simp [firstWriter?] at h
  | call :: rest, h => by
    simp only [firstWriter?] at h
    split at h
    · cases h
    · exact ⟨call, by simp, by simpa using h⟩
    · obtain ⟨other, hmem, hname⟩ := mem_of_firstWriter? h
      exact ⟨other, by simp [hmem], hname⟩

/-- A writer has a name, so a placeholder that has one is never shown as its tag. -/
theorem command_ne_nil {tree : FileTree} {index : Script.Index} {schema : Schema} {limit : Int}
    {request : Request} {result : Result} {command : Text}
    (h : trace tree index schema limit request = .ok result)
    (hcommand : result.command? = some command) : command ≠ [] := by
  obtain ⟨final, -, hend⟩ := ends_of_trace h
  cases hend with
  | stopped =>
    unfold Search.stop Search.finish at hcommand
    split at hcommand <;> cases hcommand
  | found _ _ hscan =>
    obtain ⟨text, -, hwriter, -⟩ := Query.scan_of_writer hscan
    obtain ⟨call, hcall, rfl⟩ := mem_of_firstWriter? hwriter
    obtain rfl := Option.some.inj hcommand
    exact Script.invocations_name_ne_nil hcall

end Trace

theorem Placeholder.request_injective {origin : Text} {line : Int} :
    Function.Injective (Placeholder.request origin line) := by
  rintro ⟨tag, group⟩ ⟨tag', group'⟩ h
  simp only [request, Trace.Request.mk.injEq, Int.natCast_inj, true_and] at h
  rw [h.1, h.2]

namespace Message

theorem mem_placeholders {m : Message} {p : Placeholder} :
    p ∈ m.placeholders ↔ .placeholder p ∈ m.segments := by
  rw [placeholders, List.mem_eraseDups, List.mem_filterMap]
  constructor
  · rintro ⟨segment, hmem, hsegment⟩
    cases segment with
    | placeholder q => exact Option.some.inj hsegment ▸ hmem
    | text | flow => cases hsegment
  · exact fun h => ⟨_, h, rfl⟩

theorem nodup_eraseDups {α : Type} [DecidableEq α] (list : List α) : list.eraseDups.Nodup := by
  induction list using List.reverseRecOn with
  | nil => simp
  | append_singleton list a ih =>
    rw [Table.eraseDups_snoc]
    split_ifs with h
    · exact ih
    · have hnew : a ∉ list.eraseDups := List.mem_eraseDups.not.2 h
      exact ih.append (List.nodup_singleton a) (List.disjoint_singleton.2 hnew)

theorem nodup_placeholders (m : Message) : m.placeholders.Nodup := nodup_eraseDups _

/-- A piece as it is shown where each placeholder has a result of its own: the writer that was
found, or else the tag. -/
def shown (style : FlowStyle) (results : Placeholder → Trace.Result) : Segment → Text
  | .text literal => literal
  | .flow mark => renderFlow style mark
  | .placeholder p => '[' :: ((results p).command?.getD (Text.ofNat p.tag) ++ [']'])

theorem renderPlaceholder_eq {name : Option Text} {p : Placeholder} (h : name ≠ some []) :
    renderPlaceholder name p = '[' :: (name.getD (Text.ofNat p.tag) ++ [']']) := by
  rcases name with _ | _ | ⟨c, rest⟩
  · rfl
  · exact absurd rfl h
  · rfl

end Message

namespace Workspace

variable {tree : FileTree} {workspace : Workspace} {origin : Text} {line : Int}
  {results : Placeholder → Trace.Result}

theorem nameIn_map {ps : List Placeholder} (name : Placeholder → Option Text) {p : Placeholder}
    (h : p ∈ ps) : nameIn (ps.map fun q => (q, name q)) p = name p := by
  have hfind : ps.find? ((fun name => name.1 == p) ∘ fun q => (q, name q)) = some p := by
    change ps.find? (fun q => q == p) = some p
    rcases hfound : ps.find? (fun q => q == p) with _ | q
    · exact absurd (List.find?_eq_none.1 hfound p h) (by simp)
    · have heq : (q == p) = true := List.find?_some (p := fun q => q == p) hfound
      rw [eq_of_beq heq]
  rw [nameIn, List.find?_map, hfind]
  rfl

theorem resolveBy_traceAt : ∀ {ps : List Placeholder},
    (∀ p ∈ ps, workspace.trace tree (p.request origin line) = .ok (results p)) →
      resolveBy (workspace.traceAt tree origin line) ps
        = .ok (ps.map fun p => (p, (results p).command?))
  | [], _ => rfl
  | p :: ps, h => by
    obtain ⟨hp, hps⟩ := List.forall_mem_cons.1 h
    simp only [resolveBy, traceAt, hp, resolveBy_traceAt hps, bind, Except.bind, pure, Except.pure,
      List.map_cons]

/-- Names that were looked up by placeholder show what a trace of each occurrence shows. -/
theorem render_eq_shown {m : Message} (style : Message.FlowStyle)
    (h : ∀ p, .placeholder p ∈ m.segments →
      workspace.trace tree (p.request origin line) = .ok (results p)) :
    m.render style (nameIn (m.placeholders.map fun p => (p, (results p).command?)))
      = m.segments.flatMap (Message.shown style results) := by
  refine List.flatMap_congr fun segment hsegment => ?_
  cases segment with
  | text | flow => rfl
  | placeholder p =>
    have hname : (results p).command? ≠ some [] := fun hnil =>
      Trace.command_ne_nil (h p hsegment) hnil rfl
    rw [Message.renderSegment, nameIn_map _ (Message.mem_placeholders.2 hsegment),
      Message.renderPlaceholder_eq hname, Message.shown]

/-! ### What is asked -/

section Asking

variable {m : Type → Type} [Monad m] {ask other : Placeholder → m Trace.Result}

theorem resolveBy_congr : ∀ {ps : List Placeholder}, (∀ p ∈ ps, ask p = other p) →
    resolveBy ask ps = resolveBy other ps
  | [], _ => rfl
  | p :: ps, h => by
    obtain ⟨hp, hps⟩ := List.forall_mem_cons.1 h
    rw [resolveBy, resolveBy, hp, resolveBy_congr hps]

theorem describeBy_congr {workspace : Workspace} {file label : Text} {message : Message}
    (hmessage : workspace.snapshot.messages.message? file label = some message)
    (style : Message.FlowStyle) (h : ∀ p ∈ message.placeholders, ask p = other p) :
    describeBy ask workspace file label style = describeBy other workspace file label style := by
  simp only [describeBy, hmessage, resolveBy_congr h]

end Asking

/-- The tracer of a workspace at a line, which writes down each request after those before it. -/
def recordAt (tree : FileTree) (workspace : Workspace) (origin : Text) (line : Int)
    (p : Placeholder) : StateT (List Trace.Request) (Except Trace.Error) Trace.Result :=
  fun asked => (workspace.traceAt tree origin line p).map fun result =>
    (result, asked ++ [p.request origin line])

theorem run_recordAt (p : Placeholder) (asked : List Trace.Request) :
    (workspace.recordAt tree origin line p).run asked
      = (workspace.traceAt tree origin line p).map fun result =>
        (result, asked ++ [p.request origin line]) := rfl

theorem resolveBy_recordAt : ∀ (ps : List Placeholder) (asked : List Trace.Request),
    (resolveBy (workspace.recordAt tree origin line) ps).run asked
      = (resolveBy (workspace.traceAt tree origin line) ps).map fun names =>
        (names, asked ++ ps.map (Placeholder.request origin line))
  | [], asked => by
    rw [resolveBy, resolveBy, StateT.run_pure, List.map_nil, List.append_nil]
    rfl
  | p :: ps, asked => by
    have ih := resolveBy_recordAt ps (asked ++ [p.request origin line])
    simp only [resolveBy, StateT.run_bind, StateT.run_pure, run_recordAt]
    rcases workspace.traceAt tree origin line p with e | result
    · rfl
    · simp only [Except.map, bind, Except.bind, pure, Except.pure, ih]
      rcases resolveBy (workspace.traceAt tree origin line) ps with e | names
      · rfl
      · simp

theorem describeBy_recordAt {file label : Text} {message : Message}
    (h : workspace.snapshot.messages.message? file label = some message)
    (style : Message.FlowStyle) :
    (workspace.describeBy (workspace.recordAt tree origin line) file label style).run []
      = (workspace.describe tree file label origin line style).map fun text =>
        (text, message.placeholders.map (Placeholder.request origin line)) := by
  simp only [describeBy, describe, h, StateT.run_bind, StateT.run_pure, resolveBy_recordAt]
  rcases resolveBy (workspace.traceAt tree origin line) message.placeholders with e | names <;> rfl

/-- Where no trace of an occurrence fails, a description shows every occurrence as its own trace
has it. With the same tracer writing the requests down it shows the same, and it makes each request
of an occurrence once and no other one. -/
theorem describe_eq_shown {file label : Text} {message : Message} (style : Message.FlowStyle)
    (hmessage : workspace.snapshot.messages.message? file label = some message)
    (htraces : ∀ p, .placeholder p ∈ message.segments →
      workspace.trace tree (p.request origin line) = .ok (results p)) :
    workspace.describe tree file label origin line style
        = .ok (some (message.segments.flatMap (Message.shown style results)))
      ∧ workspace.describeBy (workspace.traceAt tree origin line) file label style
        = workspace.describe tree file label origin line style
      ∧ ∃ asked,
        (workspace.describeBy (workspace.recordAt tree origin line) file label style).run []
            = .ok (some (message.segments.flatMap (Message.shown style results)), asked)
          ∧ asked.Nodup
          ∧ ∀ request, request ∈ asked
            ↔ ∃ p, .placeholder p ∈ message.segments ∧ p.request origin line = request := by
  have hresolve : resolveBy (workspace.traceAt tree origin line) message.placeholders
      = .ok (message.placeholders.map fun p => (p, (results p).command?)) :=
    resolveBy_traceAt fun p hp => htraces p (Message.mem_placeholders.1 hp)
  have hdescribe : workspace.describe tree file label origin line style
      = .ok (some (message.segments.flatMap (Message.shown style results))) := by
    simp only [describe, describeBy, hmessage, hresolve, bind, Except.bind, pure, Except.pure,
      render_eq_shown style htraces]
  refine ⟨hdescribe, rfl,
    message.placeholders.map (Placeholder.request origin line), ?_, ?_, fun request => ?_⟩
  · rw [describeBy_recordAt hmessage, hdescribe]
    rfl
  · exact (Message.nodup_placeholders message).map Placeholder.request_injective
  · simp only [List.mem_map, Message.mem_placeholders]

/-- A message that shows one name twice, and then a number and another name of its tag. -/
def repeatedMessage : Message where
  text := "\x7b0\x7d, \x7b0:1\x7d\x7bn\x7d\x7b0:2\x7d\x7b1:3\x7d"
  segments :=
    [.placeholder ⟨0, 1⟩, .text ", ", .placeholder ⟨0, 1⟩, .flow .softBreak, .placeholder ⟨0, 2⟩,
      .placeholder ⟨1, 3⟩]

/-- The message of `repeatedMessage` in the file `town`, and the scripts that jump to one label. -/
def forkWorkspace : Workspace where
  snapshot :=
    { messages := { messages := .ofList [("town".toList, .ofList [("m".toList, repeatedMessage)])] }
      index := Trace.indexOf Trace.forkScripts
      schema := Trace.setSchema }

theorem describe_eq_shown_fork :
    forkWorkspace.describe (Trace.treeOf Trace.forkScripts) "Town" "M" "t" 2 .breaks
        = .ok (some "[SET], [SET]\n[0][1]".toList)
      ∧ ∃ asked, asked.Nodup
        ∧ (forkWorkspace.describeBy (forkWorkspace.recordAt (Trace.treeOf Trace.forkScripts) "t" 2)
          "Town" "M" .breaks).run [] = .ok (some "[SET], [SET]\n[0][1]".toList, asked) := by
  let results (p : Placeholder) : Trace.Result :=
    if p = ⟨0, 1⟩ then ⟨.resolved ⟨"SET", "a", 1, ["T".toList]⟩, 2, []⟩ else ⟨.unresolved, 3, []⟩
  have htraces : ∀ p, .placeholder p ∈ repeatedMessage.segments →
      forkWorkspace.trace (Trace.treeOf Trace.forkScripts) (p.request "t" 2)
        = .ok (results p) := by
    have hall : ∀ p ∈ repeatedMessage.placeholders,
        forkWorkspace.trace (Trace.treeOf Trace.forkScripts) (p.request "t" 2)
          = .ok (results p) := by decide +kernel
    exact fun p hp => hall p (Message.mem_placeholders.2 hp)
  have hshown : repeatedMessage.segments.flatMap (Message.shown .breaks results)
      = "[SET], [SET]\n[0][1]".toList := by decide +kernel
  have hmessage : forkWorkspace.snapshot.messages.message? "Town" "M" = some repeatedMessage := by
    decide +kernel
  obtain ⟨hdescribe, -, asked, hasked, hnodup, -⟩ := describe_eq_shown .breaks hmessage htraces
  exact ⟨hshown ▸ hdescribe, asked, hnodup, hshown ▸ hasked⟩

end Workspace

end Dialogue
