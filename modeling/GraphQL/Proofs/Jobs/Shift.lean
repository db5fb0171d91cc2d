import GraphQL.Engine
import GraphQL.Proofs.Jobs.Views

/-!
# Jobs that start later

A job sees the shared state and whether the operation is cancelled. What happened before it was
started is nothing to it: neither the instant of its start nor the history makes a difference to
what it does (`Plan.steady_start`). So a run that goes on from some world is the run from the state
of that world, added to what happened earlier (`Job.Steady.finish`).
-/

set_option autoImplicit false

namespace GraphQL

namespace World

variable {State : Type}

/-- A world in which something happened earlier: its clock and its lists go on from there. -/
def andThen (earlier world : World State) : World State where
  state := world.state
  now := earlier.now + world.now
  cancelled := world.cancelled
  aborted := earlier.aborted || world.aborted
  history := earlier.history ++ world.history
  states := earlier.states ++ world.states

/-- What happens later is added to what happened earlier. -/
theorem record_andThen (earlier world : World State) (event : Event) :
    (earlier.andThen world).record event = earlier.andThen (world.record event) := by
  simp only [andThen, record, List.append_assoc]

/-- A state that is written later comes after those that were written earlier. -/
theorem write_andThen (earlier world : World State) (state : State) :
    (earlier.andThen world).write state = earlier.andThen (world.write state) := by
  simp only [andThen, write, List.append_assoc]

/-- What is given up later is given up in all. -/
theorem abort_andThen (earlier world : World State) :
    { earlier.andThen world with aborted := true } =
      earlier.andThen { world with aborted := true } := by
  simp only [andThen, Bool.or_true]

/-- Nothing is added by a world that only begins where another one ended. -/
theorem andThen_restart {world : World State} (uncancelled : world.cancelled = false) :
    world.andThen { state := world.state } = world := by
  cases world
  simp_all [andThen]

end World

/-- Worlds seen as those in which something happened earlier. -/
def World.later {State : Type} (earlier : World State) : World.View State State where
  see := earlier.andThen
  clock := (earlier.now + ·)
  clock_le_iff := Nat.add_le_add_iff_left
  see_at _ _ _ := rfl

/-- The view from a later moment leaves the state to the resolvers. -/
theorem World.later_plain {State : Type} (earlier : World State) : earlier.later.Plain id where
  state _ := rfl
  add now time := (Nat.add_assoc earlier.now now time).symm
  write := write_andThen earlier
  abort := abort_andThen earlier
  started world call := record_andThen earlier world (.started call)
  ended world call outcome := record_andThen earlier world (.ended call outcome)

/-- Whatever happened earlier, the job does the same. -/
def Job.Steady {State α : Type} (job : Job State α) : Prop :=
  ∀ earlier, Job.Seen (World.later earlier) job job

/-- A call does the same at whatever moment it is made. -/
theorem Registry.steady_perform {State : Type} (registry : Registry State)
    (timeout : Option Duration) (call : Call) : (registry.perform timeout call).Steady :=
  fun earlier => registry.seen_perform earlier.later_plain timeout rfl rfl fun _ _ => rfl

namespace Plan

variable {State : Type}

/-- Whatever happened earlier, a plan does the same. -/
theorem steady_start {perform : Call → Job State Outcome} (h : ∀ call, (perform call).Steady)
    (plan : Plan) : (plan.start perform).Steady :=
  fun earlier => seen_start (fun call => h call earlier) plan

end Plan

namespace Job

variable {State α : Type}

/-- A job that goes on from some world adds what it does from the state of that world to what
happened earlier. -/
theorem Steady.finish {job : Job State α} (h : job.Steady) {world : World State}
    (uncancelled : world.cancelled = false) :
    (job world).finish none =
      (world.andThen ((job { state := world.state }).finish none).1,
        ((job { state := world.state }).finish none).2) := by
  have again := (h world { state := world.state }).finish none
  have restarted : world.later.see { state := world.state } = world :=
    World.andThen_restart uncancelled
  rwa [restarted] at again

end Job

end GraphQL
