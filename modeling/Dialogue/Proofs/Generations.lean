import Dialogue.Workspace.Basic
import Mathlib.Data.List.Induction

/-!
# The generations of a workspace

A workspace is refreshed, swapped, asked for messages and searched in any order, and files change
between two of these acts. An act supplies data sets or it does not (`supply?`). One that does not
leaves the workspace as it is (`perform_of_none`): it describes, searches, or is a refresh that
fails in one of its loads. One that does puts them in place and is heard as the next generation
(`perform_of_some`). So a workspace is at all times accounted for by what was supplied
(`accounted_of_acts`).
-/

namespace Dialogue

/-- The generation that observers hear of. -/
def Notice.generation? : Notice → Option Nat
  | .refreshed generation => some generation
  | _ => none

def generationsIn (heard : List Notice) : List Nat := heard.filterMap Notice.generation?

theorem generationsIn_append (heard more : List Notice) :
    generationsIn (heard ++ more) = generationsIn heard ++ generationsIn more :=
  List.filterMap_append

theorem generationsIn_logged (log : List Log.Entry) : generationsIn (log.map .logged) = [] := by
  induction log with
  | nil => rfl
  | cons entry log ih => exact ih

namespace Workspace

/-- What may be done with a workspace. -/
inductive Act
  | refresh (room : Room)
  | swap (messages : Option Store) (index : Option Script.Index) (schema : Option Schema)
  | describe (file label origin : Text) (line : Int) (style : Message.FlowStyle)
  | trace (request : Trace.Request)

/-- What an act answers. -/
inductive Answer
  | generation (n : Nat)
  | message (text : Option Text)
  | result (result : Trace.Result)
deriving DecidableEq, Repr

/-- The workspace after an act on the files as they are then, what its observers hear of it, and
the answer. -/
def perform (tree : FileTree) (workspace : Workspace) :
    Act → Workspace × List Notice × Except Error Answer
  | .refresh room =>
    let done := workspace.refresh room tree
    (done.1, done.2.1, done.2.2.map .generation)
  | .swap messages index schema =>
    let done := workspace.swap messages index schema
    (done.1, done.2, .ok (.generation done.1.generation))
  | .describe file label origin line style =>
    let answer := workspace.describe tree file label origin line style
    (workspace, [], (answer.map .message).mapError .trace)
  | .trace request => (workspace, [], ((workspace.trace tree request).map .result).mapError .trace)

/-- The workspace of a project after some acts, and what its observers have heard. It starts without
data sets. -/
def after (project : Settings.Project) (acts : List (FileTree × Act)) :
    Workspace × List Notice :=
  acts.foldl (fun state act =>
      let done := state.1.perform act.1 act.2
      (done.1, state.2 ++ done.2.1))
    (.ofSnapshot (some project) {}, [])

/-- Data sets for some of the places of a snapshot. -/
structure Supply where
  messages : Option Store
  index : Option Script.Index
  schema : Option Schema

/-- What an act supplies: a swap what it names, and a refresh everything, if it can be loaded. -/
def supply? (project : Settings.Project) (tree : FileTree) : Act → Option Supply
  | .refresh room =>
    match (loadSnapshot room tree project).2 with
    | .ok snapshot => some ⟨some snapshot.messages, some snapshot.index, some snapshot.schema⟩
    | .error _ => none
  | .swap messages index schema => some ⟨messages, index, schema⟩
  | .describe .. => none
  | .trace .. => none

def suppliesOf (project : Settings.Project) (acts : List (FileTree × Act)) : List Supply :=
  acts.filterMap fun act => supply? project act.1 act.2

/-- The last one of the supplies that have the part. -/
def latest {α : Type} (part : Supply → Option α) (supplies : List Supply) : Option α :=
  (supplies.filterMap part).getLast?

/-- A workspace is what was supplied to it: as many generations as supplies, each heard once and in
order, and in each place of the snapshot the last data set that came for it. -/
structure Accounted (project : Settings.Project) (supplies : List Supply) (workspace : Workspace)
    (heard : List Notice) : Prop where
  settings_eq : workspace.settings = some project
  generation_eq : workspace.generation = supplies.length
  heard_eq : generationsIn heard = List.range' 1 supplies.length
  messages_eq : workspace.snapshot.messages = (latest Supply.messages supplies).getD {}
  index_eq : workspace.snapshot.index = (latest Supply.index supplies).getD {}
  schema_eq : workspace.snapshot.schema = (latest Supply.schema supplies).getD {}

theorem latest_concat {α : Type} (part : Supply → Option α) (supplies : List Supply)
    (supply : Supply) (d : α) :
    (latest part (supplies ++ [supply])).getD d
      = (part supply).getD ((latest part supplies).getD d) := by
  unfold latest
  rw [List.filterMap_append]
  cases h : part supply <;> simp [h]

/-- Where everything can be loaded a refresh is a swap of everything. Where a load fails it leaves
the workspace as it is and no generation is heard. -/
theorem refresh_cases {workspace : Workspace} {project : Settings.Project}
    (h : workspace.settings = some project) (room : Room) (tree : FileTree) :
    (∃ snapshot, (loadSnapshot room tree project).2 = .ok snapshot
        ∧ (workspace.refresh room tree).1 = (workspace.swap (some snapshot.messages)
          (some snapshot.index) (some snapshot.schema)).1
        ∧ generationsIn (workspace.refresh room tree).2.1 = [workspace.generation + 1]
        ∧ (workspace.refresh room tree).2.2 = .ok (workspace.generation + 1))
      ∨ ∃ e, (loadSnapshot room tree project).2 = .error e
        ∧ (workspace.refresh room tree).1 = workspace
        ∧ generationsIn (workspace.refresh room tree).2.1 = []
        ∧ (workspace.refresh room tree).2.2 = .error e := by
  rcases hload : loadSnapshot room tree project with ⟨log, e | snapshot⟩
  · refine .inr ⟨e, rfl, ?_⟩
    simp only [refresh, h, hload, true_and, and_true]
    rw [generationsIn_append, generationsIn_logged]
    rfl
  · refine .inl ⟨snapshot, rfl, ?_⟩
    simp only [refresh, h, hload, swap, true_and, and_true]
    rw [generationsIn_append, generationsIn_append, generationsIn_append, generationsIn_logged]
    rfl

variable {project : Settings.Project} {workspace : Workspace}

/-- An act that supplies nothing leaves the workspace as it is, and no generation is heard. -/
theorem perform_of_none (h : workspace.settings = some project) {tree : FileTree} {act : Act}
    (hs : supply? project tree act = none) :
    (workspace.perform tree act).1 = workspace
      ∧ generationsIn (workspace.perform tree act).2.1 = [] := by
  cases act with
  | refresh room =>
    rcases refresh_cases h room tree with ⟨snapshot, hload, -⟩ | ⟨e, -, hsame, hheard, -⟩
    · simp [supply?, hload] at hs
    · exact ⟨hsame, hheard⟩
  | swap => simp [supply?] at hs
  | describe => exact ⟨rfl, rfl⟩
  | trace => exact ⟨rfl, rfl⟩

/-- An act that supplies something is a swap of it, and is heard and answered as the next
generation. -/
theorem perform_of_some (h : workspace.settings = some project) {tree : FileTree} {act : Act}
    {supply : Supply} (hs : supply? project tree act = some supply) :
    (workspace.perform tree act).1
        = (workspace.swap supply.messages supply.index supply.schema).1
      ∧ generationsIn (workspace.perform tree act).2.1 = [workspace.generation + 1]
      ∧ (workspace.perform tree act).2.2 = .ok (.generation (workspace.generation + 1)) := by
  cases act with
  | refresh room =>
    rcases refresh_cases h room tree with
      ⟨snapshot, hload, hswap, hheard, hanswer⟩ | ⟨e, hload, -⟩
    · simp only [supply?, hload, Option.some.injEq] at hs
      subst hs
      exact ⟨hswap, hheard, by rw [perform, hanswer]; rfl⟩
    · simp [supply?, hload] at hs
  | swap messages index schema =>
    simp only [supply?, Option.some.injEq] at hs
    subst hs
    exact ⟨rfl, rfl, rfl⟩
  | describe => simp [supply?] at hs
  | trace => simp [supply?] at hs

/-- A refresh supplies nothing exactly if it fails. -/
theorem supply?_refresh_eq_none (h : workspace.settings = some project) (room : Room)
    (tree : FileTree) : supply? project tree (.refresh room) = none
      ↔ ∃ e, (workspace.perform tree (.refresh room)).2.2 = .error e := by
  rcases hs : supply? project tree (.refresh room) with _ | supply
  · rcases refresh_cases h room tree with ⟨snapshot, hload, -⟩ | ⟨e, -, -, -, hanswer⟩
    · simp [supply?, hload] at hs
    · exact ⟨fun _ => ⟨e, by rw [perform, hanswer]; rfl⟩, fun _ => rfl⟩
  · simp [(perform_of_some h hs).2.2]

namespace Accounted

variable {supplies : List Supply} {heard : List Notice}

theorem start : Accounted project [] (.ofSnapshot (some project) {}) [] :=
  ⟨rfl, rfl, rfl, rfl, rfl, rfl⟩

theorem perform (h : Accounted project supplies workspace heard) (tree : FileTree) (act : Act) :
    Accounted project (supplies ++ (supply? project tree act).toList)
      (workspace.perform tree act).1 (heard ++ (workspace.perform tree act).2.1) := by
  rcases hs : supply? project tree act with _ | supply
  · obtain ⟨hsame, hheard⟩ := perform_of_none h.settings_eq hs
    rw [Option.toList_none, List.append_nil, hsame]
    exact { h with heard_eq := by rw [generationsIn_append, hheard, List.append_nil, h.heard_eq] }
  · obtain ⟨hswap, hheard, -⟩ := perform_of_some h.settings_eq hs
    rw [Option.toList_some, hswap]
    constructor
    · exact h.settings_eq
    · rw [List.length_append, ← h.generation_eq]
      rfl
    · rw [generationsIn_append, hheard, h.heard_eq, h.generation_eq, List.length_append,
        List.length_singleton, List.range'_1_concat, Nat.add_comm]
    · rw [latest_concat, ← h.messages_eq]
      rfl
    · rw [latest_concat, ← h.index_eq]
      rfl
    · rw [latest_concat, ← h.schema_eq]
      rfl

theorem of_acts (project : Settings.Project) (acts : List (FileTree × Act)) :
    Accounted project (suppliesOf project acts) (after project acts).1 (after project acts).2 := by
  induction acts using List.reverseRecOn with
  | nil => exact start
  | append_singleton acts act ih =>
    have hsupplies : suppliesOf project (acts ++ [act])
        = suppliesOf project acts ++ (supply? project act.1 act.2).toList := by
      unfold suppliesOf
      rw [List.filterMap_append]
      cases h : supply? project act.1 act.2 <;> simp [h]
    have hafter : after project (acts ++ [act])
        = (((after project acts).1.perform act.1 act.2).1,
          (after project acts).2 ++ ((after project acts).1.perform act.1 act.2).2.1) := by
      simp [after]
    rw [hsupplies, hafter]
    exact ih.perform act.1 act.2

end Accounted

/-- At all times a workspace is what was supplied to it. An act that supplies nothing changes
nothing and is not heard of, and among the refreshes those are the ones that fail. -/
theorem accounted_of_acts (project : Settings.Project) (acts : List (FileTree × Act)) :
    Accounted project (suppliesOf project acts) (after project acts).1 (after project acts).2
      ∧ (∀ tree act, supply? project tree act = none →
          ((after project acts).1.perform tree act).1 = (after project acts).1
            ∧ generationsIn ((after project acts).1.perform tree act).2.1 = [])
      ∧ ∀ room tree, supply? project tree (.refresh room) = none
          ↔ ∃ e, ((after project acts).1.perform tree (.refresh room)).2.2 = .error e := by
  have hacts := Accounted.of_acts project acts
  exact ⟨hacts, fun _ _ => perform_of_none hacts.settings_eq,
    supply?_refresh_eq_none hacts.settings_eq⟩

def plainProject : Settings.Project :=
  ⟨"/p", "/p", .string "*.ev", "/p", .string "*.asset", "/p"⟩

/-- Room for the shallow files of the examples here. -/
def plainRoom : Room := ⟨4, 4, 4⟩

/-- A tree with a hint and a script that declares a label. -/
def soundTree : FileTree := ⟨[], .ofList
  [([['p']], .folder),
   (["p", "hints.json"], .file (Utf8.encode "[\x7b\x22Cmd\x22: \x22A\x22\x7d]")),
   (["p", "a.ev"], .file (Utf8.encode "A:"))]⟩

/-- A tree whose one file is an ill-formed hint. -/
def spoiledTree : FileTree := ⟨[], .ofList
  [([['p']], .folder), (["p", "hints.json"], .file
    (Utf8.encode "[\x7b\x22Cmd\x22: \x22A\x22, \x22Params\x22: 5\x7d]"))]⟩

/-- A refresh, one that fails on the hint, and a swap of the index for one of two labels. -/
def threeActs : List (FileTree × Act) :=
  [(soundTree, .refresh plainRoom), (spoiledTree, .refresh plainRoom),
   (spoiledTree, .swap none (some (Script.Index.addLines {} "b" ["B:", "C:"]).1) none)]

theorem accounted_of_acts_three :
    generationsIn (after plainProject threeActs).2 = [1, 2]
      ∧ (after plainProject threeActs).1.snapshot.schema.contains (.string "A") = .ok true
      ∧ (after plainProject threeActs).1.snapshot.index.definitions.keys = ["B".toList, "C".toList]
      ∧ supply? plainProject spoiledTree (.refresh plainRoom) = none
      ∧ ((after plainProject threeActs).1.perform spoiledTree (.refresh plainRoom)).1
        = (after plainProject threeActs).1
      ∧ ∃ e, ((after plainProject threeActs).1.perform spoiledTree (.refresh plainRoom)).2.2
        = .error e := by
  obtain ⟨hacts, hunchanged, hfails⟩ := accounted_of_acts plainProject threeActs
  have hcount : (suppliesOf plainProject threeActs).length = 2 := by decide +kernel
  have hschema : ((latest Supply.schema (suppliesOf plainProject threeActs)).getD {}).contains
      (.string "A") = .ok true := by decide +kernel
  have hindex : ((latest Supply.index (suppliesOf plainProject threeActs)).getD {}).definitions.keys
      = ["B".toList, "C".toList] := by decide +kernel
  have hnone : supply? plainProject spoiledTree (.refresh plainRoom) = none :=
    Option.isNone_iff_eq_none.1 (by decide +kernel)
  rw [← hacts.schema_eq] at hschema
  rw [← hacts.index_eq] at hindex
  exact ⟨by rw [hacts.heard_eq, hcount]; rfl, hschema, hindex, hnone, (hunchanged _ _ hnone).1,
    (hfails _ _).1 hnone⟩

end Workspace

end Dialogue
