import Dialogue.Dispatch.Publisher

/-!
# Running requests in turns

Jobs that can go on stand in a queue. A turn takes every job that stood there when it began, each up
to where it waits next. A job may wait for its next turn, or for a gate, which stays open once it is
opened. A job that ends still counts as running until the next turn begins.
-/

namespace Dialogue.Dispatch

/-- Where a job is after a turn. -/
inductive Progress (σ ρ : Type)
  | yields (state : σ)
  | waits (gate : Int) (state : σ)
  | answers (answer : ρ)
  | fails

/-- The jobs and what they have published. -/
structure Schedule (σ ρ : Type) where
  publisher : Publisher ρ := {}
  /-- The jobs that can go on, each with the number of its request. -/
  ready : List (Nat × σ) := []
  /-- The jobs at closed gates. -/
  waiting : List (Int × Nat × σ) := []
  /-- The gates that are open. -/
  opened : List Int := []
  /-- The jobs that ended in the last turn. -/
  ended : Nat := 0

namespace Schedule

variable {σ ρ : Type}

def pending (schedule : Schedule σ ρ) : Nat :=
  schedule.ready.length + schedule.waiting.length + schedule.ended

/-- The schedule with one more request, whose job runs from the next turn on. -/
def dispatch (schedule : Schedule σ ρ) (state : σ) : Schedule σ ρ :=
  let publisher := schedule.publisher.request
  { schedule with publisher, ready := schedule.ready ++ [(publisher.sequence, state)] }

/-- The schedule with a gate open; the jobs at it can go on, in the order in which they came. -/
def release (schedule : Schedule σ ρ) (gate : Int) : Schedule σ ρ :=
  { schedule with
    opened := gate :: schedule.opened
    ready := schedule.ready ++ (schedule.waiting.filter fun w => w.1 == gate).map (·.2)
    waiting := schedule.waiting.filter fun w => w.1 != gate }

def settle (schedule : Schedule σ ρ) (sequence : Nat) :
    Progress σ ρ → Schedule σ ρ × List (Event ρ)
  | .yields state => ({ schedule with ready := schedule.ready ++ [(sequence, state)] }, [])
  | .waits gate state =>
    ({ schedule with waiting := schedule.waiting ++ [(gate, sequence, state)] }, [])
  | .fails => ({ schedule with ended := schedule.ended + 1 }, [])
  | .answers answer =>
    let (publisher, event) := schedule.publisher.complete sequence answer
    ({ schedule with publisher, ended := schedule.ended + 1 }, [event])

def runJobs (step : List Int → σ → Progress σ ρ) (schedule : Schedule σ ρ) :
    List (Nat × σ) → Schedule σ ρ × List (Event ρ)
  | [] => (schedule, [])
  | (sequence, state) :: rest =>
    let (schedule, events) := schedule.settle sequence (step schedule.opened state)
    let (schedule, more) := runJobs step schedule rest
    (schedule, events ++ more)

def turn (step : List Int → σ → Progress σ ρ) (schedule : Schedule σ ρ) :
    Schedule σ ρ × List (Event ρ) :=
  runJobs step { schedule with ready := [], ended := 0 } schedule.ready

def turns (step : List Int → σ → Progress σ ρ) :
    Nat → Schedule σ ρ → Schedule σ ρ × List (Event ρ)
  | 0, schedule => (schedule, [])
  | count + 1, schedule =>
    let (schedule, events) := schedule.turn step
    let (schedule, more) := turns step count schedule
    (schedule, events ++ more)

end Schedule

/-- A job that waits at a gate and then answers. -/
structure Gated (ρ : Type) where
  gate : Int
  answer : ρ

def Gated.step {ρ : Type} (opened : List Int) (job : Gated ρ) : Progress (Gated ρ) ρ :=
  if opened.contains job.gate then .answers job.answer else .waits job.gate job

end Dialogue.Dispatch
