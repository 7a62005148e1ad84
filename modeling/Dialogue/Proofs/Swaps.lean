import Dialogue.Proofs.Describing
import Dialogue.Proofs.Pauses
import Dialogue.Workspace.Paused

/-!
# A description among swaps

A description splits into the searches that begin now and those that are left for later
(`ask_splits`, `resume_splits`), and a search that has begun comes to what it comes to without a
pause. So a description among swaps is one in which every placeholder is traced in the workspace as
it was when its search began (`described_at_moments`). The searches need not begin in one generation
(`not_one_generation`).
-/

namespace Dialogue

namespace Workspace

variable {tree : FileTree}

/-- The second list has items of the first one in their order, each as often as one likes. -/
inductive Follows {α : Type} : List α → List α → Prop
  | nil {history : List α} : Follows history []
  | later {a : α} {history picked : List α} (h : Follows history picked) :
      Follows (a :: history) picked
  | now {a : α} {history picked : List α} (h : Follows (a :: history) picked) :
      Follows (a :: history) (a :: picked)

theorem Follows.mem {α : Type} {history picked : List α} (h : Follows history picked) {a : α}
    (ha : a ∈ picked) : a ∈ history := by
  induction h with
  | nil => cases ha
  | later _ ih => exact List.mem_cons_of_mem _ (ih ha)
  | now _ ih =>
    rcases List.mem_cons.1 ha with rfl | ha
    · exact List.mem_cons_self
    · exact ih ha

/-- The workspaces that there are one after the other. -/
def history (workspace : Workspace) : List Event → List Workspace
  | [] => [workspace]
  | .swap messages index schema :: events =>
    workspace :: (workspace.swap messages index schema).1.history events
  | .resume :: events => workspace.history events

theorem exists_history_eq_cons (workspace : Workspace) :
    ∀ events : List Event, ∃ later, workspace.history events = workspace :: later
  | [] => ⟨[], rfl⟩
  | .swap .. :: _ => ⟨_, rfl⟩
  | .resume :: events => exists_history_eq_cons workspace events

theorem Follows.now_all {workspace : Workspace} {events : List Event} {picked : List Workspace}
    (h : Follows (workspace.history events) picked) : ∀ now : List Workspace,
      (∀ other ∈ now, other = workspace) → Follows (workspace.history events) (now ++ picked)
  | [], _ => h
  | other :: others, hnow => by
    obtain ⟨rfl, hrest⟩ := List.forall_mem_cons.1 hnow
    have hfollows := Follows.now_all h others hrest
    obtain ⟨later, hlater⟩ := other.exists_history_eq_cons events
    rw [hlater] at hfollows ⊢
    exact hfollows.now

/-- A search for a writer comes to what a trace in the workspace comes to where it began. -/
theorem View.finish_search (view : View) (tree : FileTree) (workspace : Workspace)
    (p : Placeholder) :
    (view.search tree workspace p).finish (view.query workspace p) (Trace.contentOf tree)
      = workspace.traceAt tree view.origin view.line p :=
  Trace.finish_advance _ _ _

/-- The message as it is shown after some names are known, where each other placeholder is traced
at a moment of its own. -/
def View.answer (view : View) (tree : FileTree) (moment : Placeholder → Workspace)
    (names : List (Placeholder × Option Text)) (ps : List Placeholder) :
    Except Trace.Error (Option Text) :=
  (resolveBy (fun p => (moment p).traceAt tree view.origin view.line p) ps).map fun more =>
    some (view.message.render view.style (nameIn (names ++ more)))

namespace View

variable {view : View} {moment : Placeholder → Workspace}
  {names : List (Placeholder × Option Text)}

theorem answer_cons_error {p : Placeholder} {e : Trace.Error} {ps : List Placeholder}
    (h : (moment p).traceAt tree view.origin view.line p = .error e) :
    view.answer tree moment names (p :: ps) = .error e := by
  simp [answer, resolveBy, h, bind, Except.bind, Except.map]

theorem answer_cons_ok {p : Placeholder} {result : Trace.Result} {ps : List Placeholder}
    (h : (moment p).traceAt tree view.origin view.line p = .ok result) :
    view.answer tree moment names (p :: ps)
      = view.answer tree moment (names ++ [(p, result.command?)]) ps := by
  simp only [answer, resolveBy, h, bind, Except.bind, pure, Except.pure]
  rcases resolveBy (fun p => (moment p).traceAt tree view.origin view.line p) ps with e | more
  · rfl
  · simp [Except.map]

theorem answer_congr {other : Placeholder → Workspace} {ps : List Placeholder}
    (h : ∀ p ∈ ps, moment p = other p) :
    view.answer tree moment names ps = view.answer tree other names ps := by
  have hresolve : resolveBy (fun p => (moment p).traceAt tree view.origin view.line p) ps
      = resolveBy (fun p => (other p).traceAt tree view.origin view.line p) ps :=
    resolveBy_congr fun p hp => by rw [h p hp]
  rw [answer, answer, hresolve]

/-- Where no name is known yet, the message is described from its beginning. -/
theorem answer_nil {workspace : Workspace} {file label : Text}
    (hmessage : workspace.snapshot.messages.message? file label = some view.message) :
    view.answer tree moment [] view.message.placeholders
      = workspace.describeBy (fun p => (moment p).traceAt tree view.origin view.line p) file label
        view.style := by
  simp only [answer, describeBy, hmessage, List.nil_append, bind, Except.bind, pure, Except.pure]
  rcases resolveBy (fun p => (moment p).traceAt tree view.origin view.line p)
    view.message.placeholders with e | names <;> rfl

end View

namespace Description

/-- The placeholders whose searches have not begun. -/
def rest : Description → List Placeholder
  | .inl description => description.rest
  | .inr _ => []

/-- What a description comes to whose other searches begin at moments of their own. -/
def finish (tree : FileTree) (moment : Placeholder → Workspace) :
    Description → Except Trace.Error (Option Text)
  | .inl description =>
    match description.search.finish description.query (Trace.contentOf tree) with
    | .error e => .error e
    | .ok result =>
      description.view.answer tree moment
        (description.names ++ [(description.placeholder, result.command?)]) description.rest
  | .inr result => result

theorem finish_congr {moment other : Placeholder → Workspace} {description : Description}
    (h : ∀ p ∈ description.rest, moment p = other p) :
    description.finish tree moment = description.finish tree other := by
  rcases description with description | result
  · rw [finish, finish]
    split
    · rfl
    · exact View.answer_congr h
  · rfl

/-- The most resumptions that a description takes. -/
def left : Description → Nat
  | .inl description =>
    description.search.budget + 1 + description.rest.length * Trace.defaultLimit.toNat
  | .inr _ => 0

end Description

/-- The searches that begin now are those of the first placeholders, and nothing that happens later
changes what they come to. -/
theorem ask_splits (view : View) (workspace : Workspace) :
    ∀ (ps : List Placeholder) (names : List (Placeholder × Option Text)),
      ∃ now, ps = now ++ Description.rest (view.ask tree workspace names ps)
        ∧ now.head? = ps.head?
        ∧ ∀ moment, (∀ p ∈ now, moment p = workspace) →
          Description.finish tree moment (view.ask tree workspace names ps)
            = view.answer tree moment names ps
  | [], names => ⟨[], rfl, rfl, fun moment _ => by
      simp [View.ask, Description.finish, View.answer, resolveBy, pure, Except.pure, Except.map]⟩
  | p :: ps, names => by
    have hfinish := view.finish_search tree workspace p
    rw [View.ask]
    rcases hsearch : view.search tree workspace p with search | e | result <;>
      rw [hsearch] at hfinish <;> simp only [] at hfinish ⊢
    · refine ⟨[p], rfl, rfl, fun moment hnow => ?_⟩
      have htrace : (moment p).traceAt tree view.origin view.line p
          = search.finish (view.query workspace p) (Trace.contentOf tree) := by
        rw [hnow p (by simp), ← hfinish]
        rfl
      rw [Description.finish]
      split
      · rename_i hend
        exact (View.answer_cons_error (htrace.trans hend)).symm
      · rename_i hend
        exact (View.answer_cons_ok (htrace.trans hend)).symm
    · refine ⟨p :: ps, by simp [Description.rest], rfl, fun moment hnow => ?_⟩
      have htrace : (moment p).traceAt tree view.origin view.line p = .error e := by
        rw [hnow p (by simp), ← hfinish]
        rfl
      exact (View.answer_cons_error htrace).symm
    · obtain ⟨now, hps, -, hrest⟩ := ask_splits view workspace ps (names ++ [(p, result.command?)])
      refine ⟨p :: now, by rw [List.cons_append, ← hps], rfl, fun moment hnow => ?_⟩
      obtain ⟨hp, hnow⟩ := List.forall_mem_cons.1 hnow
      have htrace : (moment p).traceAt tree view.origin view.line p = .ok result := by
        rw [hp, ← hfinish]
        rfl
      rw [View.answer_cons_ok htrace]
      exact hrest moment hnow

theorem resume_splits (description : Describing) (workspace : Workspace) :
    ∃ now, description.rest = now ++ Description.rest (description.resume tree workspace)
      ∧ ∀ moment, (∀ p ∈ now, moment p = workspace) →
        Description.finish tree moment (description.resume tree workspace)
          = Description.finish tree moment (.inl description) := by
  have hfinish : Trace.Pausing.finish description.query (Trace.contentOf tree)
      (description.search.resume description.query (Trace.contentOf tree))
        = description.search.finish description.query (Trace.contentOf tree) :=
    Trace.finish_resume description.search
  unfold Describing.resume
  rcases hresume : description.search.resume description.query (Trace.contentOf tree) with
    search | e | result <;> rw [hresume] at hfinish
  · refine ⟨[], rfl, fun moment _ => ?_⟩
    simp only [Description.finish, ← hfinish]
    rfl
  · refine ⟨description.rest, by simp [Description.rest], fun moment _ => ?_⟩
    simp only [Description.finish, ← hfinish]
    rfl
  · obtain ⟨now, hrest, -, hnow⟩ := ask_splits description.view workspace description.rest
      (description.names ++ [(description.placeholder, result.command?)])
    refine ⟨now, hrest, fun moment hmoment => (hnow moment hmoment).trans ?_⟩
    simp only [Description.finish, ← hfinish]
    rfl

theorem left_ask (view : View) (workspace : Workspace) : ∀ (ps : List Placeholder)
    (names : List (Placeholder × Option Text)),
      Description.left (view.ask tree workspace names ps)
        ≤ ps.length * Trace.defaultLimit.toNat
  | [], _ => Nat.zero_le _
  | p :: ps, names => by
    rw [View.ask, List.length_cons, Nat.succ_mul]
    split
    · rename_i search hadvance
      have hbudget := Trace.budget_lt_of_advance hadvance
      simp only [Description.left]
      omega
    · exact Nat.zero_le _
    · exact Nat.le_trans (left_ask view workspace ps _) (Nat.le_add_right _ _)

theorem left_resume (description : Describing) (workspace : Workspace) :
    Description.left (description.resume tree workspace)
      < Description.left (.inl description) := by
  unfold Describing.resume
  split
  · rename_i search hresume
    have hbudget := Trace.budget_lt_of_resume hresume
    simp only [Description.left]
    omega
  · simp only [Description.left]
    omega
  · rename_i result _
    have hrest : Description.left (description.view.ask tree workspace
        (description.names ++ [(description.placeholder, result.command?)]) description.rest)
          ≤ description.rest.length * Trace.defaultLimit.toNat := left_ask _ _ _ _
    simp only [Description.left] at hrest ⊢
    omega

theorem run_of_ended {result : Except Trace.Error (Option Text)} : ∀ (events : List Event)
    {call : Call}, call.description = .inr result → (call.run tree events).description = .inr result
  | [], _, h => h
  | .swap .. :: events, _, h => run_of_ended events h
  | .resume :: events, call, h => by
    have hstep : call.step tree .resume = call := by simp only [Call.step, h]
    rw [Call.run, List.foldl_cons, hstep]
    exact run_of_ended events h

/-- A description ends once it has gone on often enough. -/
theorem isRight_of_left_le : ∀ (events : List Event) (call : Call),
    call.description.left ≤ events.countP Event.isResume →
      (call.run tree events).description.isRight = true
  | [], ⟨workspace, .inr result⟩, _ => rfl
  | [], ⟨workspace, .inl description⟩, h => by
    simp only [Description.left, List.countP_nil] at h
    omega
  | .swap messages index schema :: events, call, h =>
    isRight_of_left_le events (call.step tree (.swap messages index schema))
      (by simpa [Event.isResume, Call.step] using h)
  | .resume :: events, ⟨workspace, .inr result⟩, _ => by
    rw [run_of_ended (.resume :: events) rfl]
    rfl
  | .resume :: events, ⟨workspace, .inl description⟩, h => by
    have hleft : Description.left (description.resume tree workspace)
        < Description.left (.inl description) := left_resume description workspace
    have hcount : Description.left (.inl description) ≤ events.countP Event.isResume + 1 := by
      simpa [List.countP_cons, Event.isResume] using h
    exact isRight_of_left_le events ⟨workspace, description.resume tree workspace⟩
      (Nat.le_of_lt_succ (Nat.lt_of_lt_of_le hleft hcount))

/-- Searches that begin now come before others that follow. -/
theorem exists_both {workspace : Workspace} {events : List Event} {now later : List Placeholder}
    (hnodup : (now ++ later).Nodup) {moment : Placeholder → Workspace}
    (h : Follows (workspace.history events) (later.map moment)) :
    ∃ both : Placeholder → Workspace, (∀ p ∈ now, both p = workspace)
      ∧ (∀ p ∈ later, both p = moment p)
      ∧ Follows (workspace.history events) ((now ++ later).map both) := by
  let both (p : Placeholder) : Workspace := if p ∈ now then workspace else moment p
  have hnow : ∀ p ∈ now, both p = workspace := fun p hp => if_pos hp
  have hlater : ∀ p ∈ later, both p = moment p := fun p hp =>
    if_neg fun hp' => (List.nodup_append.1 hnodup).2.2 p hp' p hp rfl
  refine ⟨both, hnow, hlater, ?_⟩
  rw [List.map_append, List.map_congr_left hlater]
  refine h.now_all _ fun other hother => ?_
  obtain ⟨p, hp, rfl⟩ := List.mem_map.1 hother
  exact hnow p hp

/-- What a description has come to at its end is what it comes to if every search that is still to
begin does so at its own moment of those that follow. -/
theorem finish_of_run {result : Except Trace.Error (Option Text)} :
    ∀ (events : List Event) (call : Call), call.description.rest.Nodup →
      (call.run tree events).description = .inr result →
        ∃ moment : Placeholder → Workspace,
          Follows (call.workspace.history events) (call.description.rest.map moment)
            ∧ result = call.description.finish tree moment
  | [], call, _, h => by
    have hended : call.description = .inr result := h
    rw [hended]
    exact ⟨fun _ => call.workspace, .nil, rfl⟩
  | .swap messages index schema :: events, call, hnodup, h => by
    obtain ⟨moment, hfollows, hresult⟩ :=
      finish_of_run events (call.step tree (.swap messages index schema)) hnodup h
    exact ⟨moment, hfollows.later, hresult⟩
  | .resume :: events, ⟨workspace, .inr ended⟩, _, h => by
    rw [run_of_ended (.resume :: events) rfl] at h
    exact ⟨fun _ => workspace, .nil, (Sum.inr.inj h).symm⟩
  | .resume :: events, ⟨workspace, .inl description⟩, hnodup, h => by
    obtain ⟨now, hrest, hfinish⟩ :
        ∃ now, description.rest = now ++ Description.rest (description.resume tree workspace) ∧ _ :=
      resume_splits description workspace
    have hsplit : (now ++ Description.rest (description.resume tree workspace)).Nodup :=
      hrest ▸ hnodup
    obtain ⟨moment, hfollows, hresult⟩ := finish_of_run events
      ⟨workspace, description.resume tree workspace⟩ (List.nodup_append.1 hsplit).2.1 h
    obtain ⟨both, hnow, hlater, hall⟩ := exists_both hsplit hfollows
    rw [← hrest] at hall
    refine ⟨both, hall, ?_⟩
    rw [hresult, ← hfinish both hnow]
    exact (Description.finish_congr hlater).symm

/-- From its beginning on, a message comes to what it comes to if every search begins at a moment of
its own, and the first one at once. -/
theorem answer_of_run {workspace : Workspace} {view : View} {events : List Event}
    {result : Except Trace.Error (Option Text)}
    (h : (Call.run tree ⟨workspace, view.ask tree workspace [] view.message.placeholders⟩
      events).description = .inr result) :
    ∃ moment : Placeholder → Workspace,
      Follows (workspace.history events) (view.message.placeholders.map moment)
        ∧ (∀ p ∈ view.message.placeholders.head?, moment p = workspace)
        ∧ result = view.answer tree moment [] view.message.placeholders := by
  let first : Description := view.ask tree workspace [] view.message.placeholders
  obtain ⟨now, hps, hhead, hfinish⟩ : ∃ now, view.message.placeholders = now ++ first.rest
      ∧ now.head? = view.message.placeholders.head? ∧ _ :=
    ask_splits view workspace view.message.placeholders []
  have hsplit : (now ++ first.rest).Nodup := hps ▸ view.message.nodup_placeholders
  obtain ⟨moment, hfollows, hresult⟩ :=
    finish_of_run events ⟨workspace, first⟩ (List.nodup_append.1 hsplit).2.1 h
  obtain ⟨both, hnow, hlater, hall⟩ := exists_both hsplit hfollows
  rw [← hps] at hall
  refine ⟨both, hall, fun p hp => hnow p (List.mem_of_head? (hhead.trans hp)), ?_⟩
  rw [hresult, ← hfinish both hnow]
  exact (Description.finish_congr hlater).symm

/-- What a description of a stored message comes to among swaps. It ends, however often it is
interrupted, once it has gone on often enough. Each of its placeholders is then shown as the
workspace of one moment has it, these moments come in the order of the placeholders, and the first
one is the beginning. So the text is of one generation where the message has one placeholder, and
where no index and no schema is replaced. -/
theorem described_at_moments {workspace : Workspace} {file label origin : Text} {line : Int}
    {style : Message.FlowStyle} {message : Message}
    (hmessage : workspace.snapshot.messages.message? file label = some message)
    (events : List Event) :
    (message.placeholders.length * Trace.defaultLimit.toNat ≤ events.countP Event.isResume →
      ((Call.start tree workspace file label origin line style).run tree
        events).description.isRight = true)
      ∧ ∀ result,
        ((Call.start tree workspace file label origin line style).run tree events).description
            = .inr result →
          (∃ moment : Placeholder → Workspace,
            Follows (workspace.history events) (message.placeholders.map moment)
              ∧ (∀ p ∈ message.placeholders.head?, moment p = workspace)
              ∧ result = workspace.describeBy (fun p => (moment p).traceAt tree origin line p) file
                label style)
          ∧ ((message.placeholders.length ≤ 1
            ∨ ∀ other ∈ workspace.history events, other.snapshot.index = workspace.snapshot.index
              ∧ other.snapshot.schema = workspace.snapshot.schema) →
                result = workspace.describe tree file label origin line style) := by
  let view : View := ⟨message, origin, line, style⟩
  have hstart : Call.start tree workspace file label origin line style
      = ⟨workspace, view.ask tree workspace [] message.placeholders⟩ := by
    simp only [Call.start, begin, hmessage]
    rfl
  rw [hstart]
  refine ⟨fun h => isRight_of_left_le events _ (Nat.le_trans (left_ask view workspace _ _) h),
    fun result hrun => ?_⟩
  obtain ⟨moment, hfollows, hfirst, hanswer⟩ := answer_of_run hrun
  have hresult : result = workspace.describeBy (fun p => (moment p).traceAt tree origin line p)
      file label style := hanswer.trans (View.answer_nil hmessage)
  refine ⟨⟨moment, hfollows, hfirst, hresult⟩, fun hone => ?_⟩
  have hsame : ∀ p ∈ message.placeholders,
      (moment p).traceAt tree origin line p = workspace.traceAt tree origin line p := by
    intro p hp
    rcases hone with hone | hone
    · have hhead : message.placeholders.head? = some p := by
        match message.placeholders, hone, hp with
        | [q], _, hp => rw [List.mem_singleton.1 hp, List.head?_singleton]
      rw [hfirst p hhead]
    · obtain ⟨hindex, hschema⟩ := hone (moment p) (hfollows.mem (List.mem_map_of_mem hp))
      simp only [traceAt, Workspace.trace, hindex, hschema]
  rw [hresult, describe, describeBy_congr hmessage style hsame]

/-- A script that writes two names, each by a command of its own. -/
def pairScripts : List (Text × List Text) :=
  [("a", ["SET(0)".toList, "PUT(1)".toList, "P(0)".toList])]

/-- The command `PUT` writes the name in its first argument. -/
def putSchema : Schema :=
  { hints := .ofList [(⟨.string "PUT"⟩,
      { name := .string "PUT", params := [{ index := .int 0, types := ["TagIndex".toList] }] })] }

def pairMessage : Message where
  text := "\x7b0:1\x7d\x7b1:1\x7d"
  segments := [.placeholder ⟨0, 1⟩, .placeholder ⟨1, 1⟩]

/-- The message of `pairMessage` in the file `town`, and a schema that has only the first of the
commands. -/
def pairWorkspace : Workspace where
  snapshot :=
    { messages := { messages := .ofList [("town".toList, .ofList [("m".toList, pairMessage)])] }
      index := Trace.indexOf pairScripts
      schema := Trace.setSchema }

/-- The schema is replaced while the first search waits. -/
def pairEvents : List Event := [.swap none none (some putSchema), .resume, .resume]

theorem described_at_moments_pair :
    pairWorkspace.snapshot.messages.message? "town" "m" = some pairMessage
      ∧ ∃ moment : Placeholder → Workspace,
        Follows (pairWorkspace.history pairEvents) [moment ⟨0, 1⟩, moment ⟨1, 1⟩]
          ∧ moment ⟨0, 1⟩ = pairWorkspace
          ∧ .ok (some "[SET][PUT]".toList)
            = pairWorkspace.describeBy (fun p => (moment p).traceAt (Trace.treeOf pairScripts) "a" 2
              p) "town" "m" .breaks := by
  have hmessage : pairWorkspace.snapshot.messages.message? "town" "m" = some pairMessage := by
    decide +kernel
  have hrun : ((Call.start (Trace.treeOf pairScripts) pairWorkspace "town" "m" "a" 2 .breaks).run
      (Trace.treeOf pairScripts) pairEvents).description
        = .inr (.ok (some "[SET][PUT]".toList)) :=
    Sum.getRight?_eq_some_iff.1 (by decide +kernel)
  obtain ⟨moment, hfollows, hfirst, hresult⟩ :=
    ((described_at_moments hmessage pairEvents).2 _ hrun).1
  exact ⟨hmessage, moment, hfollows, hfirst ⟨0, 1⟩ rfl, hresult⟩

/-- No workspace that there is while the message is described shows it as it is described. -/
theorem not_one_generation :
    ((Call.start (Trace.treeOf pairScripts) pairWorkspace "town" "m" "a" 2 .breaks).run
        (Trace.treeOf pairScripts) pairEvents).description.getRight?
          = some (.ok (some "[SET][PUT]".toList))
      ∧ ∀ other ∈ pairWorkspace.history pairEvents,
        pairWorkspace.describeBy (other.traceAt (Trace.treeOf pairScripts) "a" 2) "town" "m" .breaks
          ≠ .ok (some "[SET][PUT]".toList) := by
  decide +kernel

end Workspace

end Dialogue
