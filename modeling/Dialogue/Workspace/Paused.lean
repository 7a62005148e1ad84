import Dialogue.Trace.Paused
import Dialogue.Workspace.Basic

/-!
# A description that pauses

A description waits where one of its searches does, and the workspace may change meanwhile. A search
keeps the index and the schema that it began with, and the next one begins with those that are in
place by then. The message is the one that was looked up at first.
-/

namespace Dialogue.Workspace

/-- What is described, and where it is shown. -/
structure View where
  message : Message
  origin : Text
  line : Int
  style : Message.FlowStyle

/-- A description that waits in one of its searches. -/
structure Describing where
  view : View
  /-- The writers of the placeholders before this one. -/
  names : List (Placeholder × Option Text) := []
  placeholder : Placeholder
  /-- The placeholders after this one. -/
  rest : List Placeholder
  query : Trace.Query
  search : Trace.Paused

/-- A description that waits, or its end. -/
abbrev Description := Describing ⊕ Except Trace.Error (Option Text)

def View.request (view : View) (p : Placeholder) : Trace.Request :=
  p.request view.origin view.line

def View.query (view : View) (workspace : Workspace) (p : Placeholder) : Trace.Query :=
  .ofRequest workspace.snapshot.index workspace.snapshot.schema (view.request p)

/-- The search for the writer of a placeholder, up to where it waits first. -/
def View.search (view : View) (tree : FileTree) (workspace : Workspace) (p : Placeholder) :
    Trace.Pausing :=
  (Trace.Arena.start (view.request p)).advance (view.query workspace p) (Trace.contentOf tree) []
    Trace.defaultLimit.toNat

/-- Searches for one writer after the other, up to the first search that waits. -/
def View.ask (tree : FileTree) (workspace : Workspace) (view : View)
    (names : List (Placeholder × Option Text)) : List Placeholder → Description
  | [] => .inr (.ok (some (view.message.render view.style (nameIn names))))
  | p :: rest =>
    match view.search tree workspace p with
    | .inl search => .inl ⟨view, names, p, rest, view.query workspace p, search⟩
    | .inr (.error e) => .inr (.error e)
    | .inr (.ok result) => view.ask tree workspace (names ++ [(p, result.command?)]) rest

/-- A description up to where it waits first. -/
def begin (tree : FileTree) (workspace : Workspace) (file label origin : Text) (line : Int)
    (style : Message.FlowStyle) : Description :=
  match workspace.snapshot.messages.message? file label with
  | none => .inr (.ok none)
  | some message => View.ask tree workspace ⟨message, origin, line, style⟩ [] message.placeholders

/-- A description up to where it waits next, in a workspace that may have changed. -/
def Describing.resume (tree : FileTree) (workspace : Workspace) (description : Describing) :
    Description :=
  match description.search.resume description.query (Trace.contentOf tree) with
  | .inl search => .inl { description with search }
  | .inr (.error e) => .inr (.error e)
  | .inr (.ok result) =>
    description.view.ask tree workspace
      (description.names ++ [(description.placeholder, result.command?)]) description.rest

/-- What happens while a description waits: parts of the workspace are replaced, or the description
goes on. -/
inductive Event
  | swap (messages : Option Store) (index : Option Script.Index) (schema : Option Schema)
  | resume

def Event.isResume : Event → Bool
  | .resume => true
  | .swap .. => false

/-- A workspace and a description of one of its messages. -/
structure Call where
  workspace : Workspace
  description : Description

namespace Call

def start (tree : FileTree) (workspace : Workspace) (file label origin : Text) (line : Int)
    (style : Message.FlowStyle) : Call :=
  ⟨workspace, workspace.begin tree file label origin line style⟩

/-- What an event makes of the call. A description that has ended does not go on. -/
def step (tree : FileTree) (call : Call) : Event → Call
  | .swap messages index schema =>
    { call with workspace := (call.workspace.swap messages index schema).1 }
  | .resume =>
    match call.description with
    | .inl description =>
      { call with description := description.resume tree call.workspace }
    | .inr _ => call

def run (tree : FileTree) (call : Call) (events : List Event) : Call :=
  events.foldl (step tree) call

end Call

end Dialogue.Workspace
