import GraphQL.Execution.Progress

/-!
# Running plans

`Plan.start` runs a plan as a job: calls go to the resolvers of a registry, and the groups of the
plan become jobs in order or together.

Before a resolver is called, and whenever its call wakes, cancellation is looked at first; then
the resolver goes on, and last the time limit is looked at. So a resolver that is ready at once
keeps its result however short the limit, and one that cancels the operation and then ends at once
keeps its result as well.
-/

set_option autoImplicit false

namespace GraphQL

/-- The limit on the time of a call: the span, and the instant at which it is over. -/
structure Deadline where
  span : Duration
  instant : Nat
  deriving DecidableEq, Repr

namespace Deadline

/-- The limit of a call that starts now. -/
def after (span : Duration) (now : Nat) : Deadline :=
  { span, instant := now + span.ceilMilliseconds }

end Deadline

namespace Action

variable {State : Type}

/-- Ends a call. -/
def settle (call : Call) (outcome : Outcome) : Job State Outcome := fun world =>
  .done (world.record (.ended call outcome)) outcome

/-- Gives a call up because the operation was cancelled. -/
def abort (call : Call) : Job State Outcome := fun world =>
  settle call .aborted { world with aborted := true }

/-- Does an action until it ends or its time is over. -/
def run (call : Call) (deadline : Option Deadline) : Action State → Job State Outcome
  | done (.ok value) => settle call (.value value)
  | done (.error error) => settle call (.failed error)
  | read next => fun world => (next world.state).run call deadline world
  | write state next => fun world => next.run call deadline (world.write state)
  | cancel next => fun world => next.run call deadline { world with cancelled := true }
  | wait milliseconds next => fun world =>
    if milliseconds = 0 then next.run call deadline world
    else
      let ready := world.now + milliseconds
      match deadline with
      | none =>
        .paused world ready fun world =>
          if world.cancelled then abort call world else next.run call none world
      | some limit =>
        if limit.instant ≤ world.now then settle call (.timedOut limit.span) world
        else
          .paused world (min ready limit.instant) fun world =>
            if world.cancelled then abort call world
            else if ready ≤ world.now then next.run call (some limit) world
            else settle call (.timedOut limit.span) world

end Action

namespace Registry

variable {State : Type}

/-- Makes a call, unless the operation is cancelled. -/
def perform (registry : Registry State) (timeout : Option Duration) (call : Call) :
    Job State Outcome := fun world =>
  match registry.lookup call.typeName call.fieldName with
  | .error cause => Action.settle call (.unbound cause) world
  | .ok binding =>
    if world.cancelled then Action.abort call world
    else
      (binding.resolver call).run call (timeout.map fun span => .after span world.now)
        (world.record (.started call))

end Registry

namespace Plan

variable {State : Type}

mutual

/-- Runs a plan; `perform` makes the calls. -/
def start (perform : Call → Job State Outcome) : Plan → Job State Completion
  | done completion => .pure completion
  | call c next => (perform c).bind fun outcome => (next outcome).start perform
  | group serial parts finish =>
    if serial then (Job.inOrder (startAll perform parts)).map finish
    else (Job.together (startAll perform parts)).map finish

/-- The jobs of plans. -/
def startAll (perform : Call → Job State Outcome) : List Plan → List (Job State Completion)
  | [] => []
  | plan :: rest => plan.start perform :: startAll perform rest

end

/-- The jobs of plans are those of each. -/
theorem startAll_eq_map (perform : Call → Job State Outcome) (plans : List Plan) :
    startAll perform plans = plans.map (·.start perform) := by
  induction plans with
  | nil => rfl
  | cons plan rest ih => simp [startAll, ih]

end Plan

end GraphQL
