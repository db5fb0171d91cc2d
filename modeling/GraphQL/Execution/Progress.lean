import GraphQL.Execution.Plan

/-!
# Concurrent jobs on one clock

A job is a computation that may have to wait. Jobs share a world: a state that resolvers read and
write, a clock that stands still while anything can go on, and the operation's cancellation. What a
job has come to (`Progress`) is its result, or a pause with the instant at which it can go on
and with what it does then. Cancellation wakes every paused job at once.

Jobs are put together by `Job.bind`, `Job.inOrder` and `Job.together`. Jobs that run together take
turns in order: each goes as far as it can before the next one does. All of this is by recursion on
what the jobs do, so that everything that is put together ends if its parts do.
-/

set_option autoImplicit false

namespace GraphQL

/-- What happened to a call. A call that is not made, because no resolver is bound or because the
operation is cancelled, ends without having started. -/
inductive Event where
  | started (call : Call)
  | ended (call : Call) (outcome : Outcome)

/-- What the jobs of an operation share. Time is in milliseconds since the start; `aborted` says
whether some call was given up because of the cancellation, and `states` lists the states that were
written. -/
structure World (State : Type) where
  state : State
  now : Nat := 0
  cancelled : Bool := false
  aborted : Bool := false
  history : List Event := []
  states : List State := []

namespace World

variable {State : Type}

/-- Whether a job that paused until some instant goes on. -/
def wakes (world : World State) (instant : Nat) : Bool :=
  world.cancelled || decide (instant ≤ world.now)

/-- The world in which something more happened. -/
def record (world : World State) (event : Event) : World State :=
  { world with history := world.history ++ [event] }

/-- The world in which another state was written. -/
def write (world : World State) (state : State) : World State :=
  { world with state, states := world.states ++ [state] }

/-- The calls that were made, in order. -/
def calls (world : World State) : List Call :=
  world.history.filterMap fun
    | .started call => some call
    | .ended _ _ => none

end World

/-- What a computation has come to in some world: a result, or a pause until some instant. -/
inductive Progress (State α : Type) where
  | done (world : World State) (result : α)
  | paused (world : World State) (wake : Nat) (resume : World State → Progress State α)

/-- A computation that has not been started. -/
abbrev Job (State α : Type) := World State → Progress State α

namespace Progress

variable {State α β : Type}

/-- The world that a computation left. -/
def world : Progress State α → World State
  | done world _ => world
  | paused world _ _ => world

/-- Goes on with another job after the result. -/
def bind (next : α → Job State β) : Progress State α → Progress State β
  | done world result => next result world
  | paused world wake resume => .paused world wake fun world => (resume world).bind next

/-- Changes the result. -/
def map (f : α → β) : Progress State α → Progress State β
  | done world result => .done world (f result)
  | paused world wake resume => .paused world wake fun world => (resume world).map f

/-- A paused computation beside another one that has come to something; `left` goes on with the
first one, followed by a job for the second. When only the second wakes, the first stays paused. -/
def besidePaused (wake : Nat) (left : World State → Job State β → Progress State (α × β)) :
    Progress State β → Progress State (α × β)
  | done world result => .paused world wake fun world => left world fun world => .done world result
  | paused world rightWake resume =>
    .paused world (min wake rightWake) fun world =>
      if world.wakes wake then
        left world fun world =>
          if world.wakes rightWake then resume world else .paused world rightWake resume
      else besidePaused wake left (resume world)

/-- A computation beside a job that takes its turn after it. -/
def beside (right : Job State β) : Progress State α → Progress State (α × β)
  | done world result => (right world).map fun other => (result, other)
  | paused world wake resume =>
    besidePaused wake (fun world right => (resume world).beside right) (right world)

/-- Runs a computation to its end. While nothing can go on the clock jumps to the next instant at
which something can, or at which the operation is cancelled. -/
def finish (cancelAt : Option Nat) : Progress State α → World State × α
  | done world result => (world, result)
  | paused world wake resume =>
    if world.cancelled then (resume world).finish cancelAt
    else if cancelAt.any (· ≤ wake) then
      (resume { world with now := cancelAt.getD wake, cancelled := true }).finish none
    else (resume { world with now := wake }).finish cancelAt

end Progress

namespace Job

variable {State α β : Type}

/-- The job that has its result at once. -/
def pure (result : α) : Job State α := fun world => .done world result

/-- A job and what follows its result. -/
def bind (job : Job State α) (next : α → Job State β) : Job State β := fun world =>
  (job world).bind next

/-- A job with a changed result. -/
def map (f : α → β) (job : Job State α) : Job State β := fun world =>
  (job world).map f

/-- Jobs one after the other; each is over before the next one starts. -/
def inOrder : List (Job State α) → Job State (List α)
  | [] => pure []
  | job :: rest => job.bind fun result => (inOrder rest).map (result :: ·)

/-- Jobs side by side. -/
def together : List (Job State α) → Job State (List α)
  | [] => pure []
  | job :: rest => fun world =>
    ((job world).beside (together rest)).map fun (result, results) => result :: results

end Job

end GraphQL
