import GraphQL.Execution.Run
import Mathlib.Data.List.Forall2

/-!
# Runs seen from outside

Two runs do the same, one of them in worlds that are seen as those of the other one (`World.View`):
the two may count time from different instants, and the worlds of one may hold more than those of
the other. `Progress.Seen` says so of what jobs have come to. The rules below carry it from the
calls to whatever is put together of them, and to the end of a run (`Progress.Seen.finish`). Where
resolvers get at no more than the state, and the views differ in what has happened alone, the calls
do the same (`Registry.seen_perform`).
-/

set_option autoImplicit false

namespace GraphQL

/-- The worlds of one run, seen as worlds of another one. -/
structure World.View (State Other : Type) where
  see : World State → World Other
  clock : Nat → Nat
  clock_le_iff : ∀ {first second : Nat}, clock first ≤ clock second ↔ first ≤ second
  see_at : ∀ (world : World State) (now : Nat) (cancelled : Bool),
    see { world with now, cancelled } = { see world with now := clock now, cancelled }

namespace World.View

variable {State Other : Type} (view : World.View State Other)

/-- The instant of a world that is seen is the instant seen on the other clock. -/
theorem now_see (world : World State) : (view.see world).now = view.clock world.now :=
  congrArg World.now (view.see_at world world.now world.cancelled)

/-- A world that is seen is cancelled if and only if the world is. -/
theorem cancelled_see (world : World State) : (view.see world).cancelled = world.cancelled :=
  congrArg World.cancelled (view.see_at world world.now world.cancelled)

/-- It makes no difference whether a cancellation comes before or after the world is seen. -/
theorem cancel_see (world : World State) :
    { view.see world with cancelled := true } = view.see { world with cancelled := true } := by
  rw [view.see_at world world.now true, ← view.now_see]

/-- Whoever waits for an instant may go on in a world that is seen just if it may in the world. -/
theorem wakes_see (world : World State) (instant : Nat) :
    (view.see world).wakes (view.clock instant) = world.wakes instant := by
  simp only [wakes, view.cancelled_see, view.now_see, view.clock_le_iff]

/-- The earlier one of two instants is seen as the earlier one. -/
theorem clock_min (first second : Nat) :
    view.clock (min first second) = min (view.clock first) (view.clock second) := by
  rcases Nat.le_total first second with le | le
  · rw [Nat.min_eq_left le, Nat.min_eq_left (view.clock_le_iff.2 le)]
  · rw [Nat.min_eq_right le, Nat.min_eq_right (view.clock_le_iff.2 le)]

end World.View

namespace Progress

variable {State Other α β : Type}

/-- The second computation does what the first one does, in the worlds as they are seen. -/
inductive Seen (view : World.View State Other) : Progress State α → Progress Other α → Prop
  | done (world : World State) (result : α) :
    Seen view (.done world result) (.done (view.see world) result)
  | paused {world : World State} {wake : Nat} {resume : World State → Progress State α}
    {resume' : World Other → Progress Other α}
    (h : ∀ world, Seen view (resume world) (resume' (view.see world))) :
    Seen view (.paused world wake resume) (.paused (view.see world) (view.clock wake) resume')

end Progress

namespace Job

variable {State Other α : Type}

/-- The second job does what the first one does, wherever the two are started. -/
def Seen (view : World.View State Other) (job : Job State α) (other : Job Other α) : Prop :=
  ∀ world, Progress.Seen view (job world) (other (view.see world))

end Job

namespace Progress

variable {State Other α β : Type} {view : World.View State Other}

/-- What follows a computation that is seen is seen, whatever the result of that is. -/
theorem Seen.bind {progress : Progress State α} {other : Progress Other α}
    {next : α → Job State β} {next' : α → Job Other β} (h : Seen view progress other)
    (hnext : ∀ a, Job.Seen view (next a) (next' a)) :
    Seen view (progress.bind next) (other.bind next') := by
  induction h with
  | done world result => exact hnext result world
  | paused h ih => exact .paused ih

/-- Mapping the result does not change what is seen. -/
theorem Seen.map {progress : Progress State α} {other : Progress Other α} (f : α → β)
    (h : Seen view progress other) : Seen view (progress.map f) (other.map f) := by
  induction h with
  | done world result => exact .done world (f result)
  | paused h ih => exact .paused ih

/-- A paused computation beside another one: which of the two may go on is the same. -/
theorem Seen.besidePaused {wake : Nat}
    {left : World State → Job State β → Progress State (α × β)}
    {left' : World Other → Job Other β → Progress Other (α × β)}
    (hleft : ∀ world right right', Job.Seen view right right' →
      Seen view (left world right) (left' (view.see world) right'))
    {progress : Progress State β} {other : Progress Other β} (h : Seen view progress other) :
    Seen view (besidePaused wake left progress) (besidePaused (view.clock wake) left' other) := by
  induction h with
  | done world result =>
    refine .paused fun later => hleft later _ _ ?_
    exact fun last => .done last result
  | @paused world rightWake resume resume' h ih =>
    rw [Progress.besidePaused, Progress.besidePaused, ← view.clock_min]
    refine .paused fun later => ?_
    rw [view.wakes_see]
    by_cases wakes : later.wakes wake = true
    · rw [if_pos wakes, if_pos wakes]
      refine hleft later _ _ fun last => ?_
      rw [view.wakes_see]
      by_cases wakesRight : last.wakes rightWake = true
      · rw [if_pos wakesRight, if_pos wakesRight]
        exact h last
      · rw [if_neg wakesRight, if_neg wakesRight]
        exact .paused h
    · rw [if_neg wakes, if_neg wakes]
      exact ih later

/-- Computations side by side are seen as those of the other run. -/
theorem Seen.beside {progress : Progress State α} {other : Progress Other α} {right : Job State β}
    {right' : Job Other β} (h : Seen view progress other) (hright : Job.Seen view right right') :
    Seen view (progress.beside right) (other.beside right') := by
  induction h generalizing right right' with
  | done world result => exact (hright world).map _
  | paused h ih => exact (hright _).besidePaused fun world _ _ seen => ih world seen

/-- The runs end the same, also where they are cancelled at one instant. -/
theorem Seen.finish {progress : Progress State α} {other : Progress Other α}
    (h : Seen view progress other) (cancelAt : Option Nat) :
    other.finish (cancelAt.map view.clock) =
      (view.see (progress.finish cancelAt).1, (progress.finish cancelAt).2) := by
  induction h generalizing cancelAt with
  | done world result => rfl
  | @paused world wake resume resume' h ih =>
    rw [Progress.finish, Progress.finish, view.cancelled_see]
    by_cases cancelled : world.cancelled = true
    · rw [if_pos cancelled, if_pos cancelled]
      exact ih world cancelAt
    · have due : (cancelAt.map view.clock).any (· ≤ view.clock wake) = cancelAt.any (· ≤ wake) := by
        cases cancelAt <;> simp [view.clock_le_iff]
      rw [if_neg cancelled, if_neg cancelled, due]
      by_cases late : cancelAt.any (· ≤ wake) = true
      · rw [if_pos late, if_pos late, Option.getD_map, ← view.see_at]
        exact ih _ none
      · rw [if_neg late, if_neg late, ← view.see_at]
        exact ih _ cancelAt

end Progress

namespace Job

variable {State Other α β : Type} {view : World.View State Other}

/-- A job that has its result already is seen as one that has it. -/
theorem seen_pure (result : α) : Seen view (pure result : Job State α) (pure result) :=
  fun world => .done world result

/-- Jobs one of which follows the result of the other are seen if both are. -/
theorem Seen.bind {job : Job State α} {other : Job Other α} {next : α → Job State β}
    {next' : α → Job Other β} (h : Seen view job other)
    (hnext : ∀ a, Seen view (next a) (next' a)) : Seen view (job.bind next) (other.bind next') :=
  fun world => (h world).bind hnext

/-- Mapping the result of a job does not change what is seen. -/
theorem Seen.map {job : Job State α} {other : Job Other α} (f : α → β) (h : Seen view job other) :
    Seen view (job.map f) (other.map f) :=
  fun world => (h world).map f

/-- Jobs one after the other are seen as those of the other run. -/
theorem seen_inOrder {jobs : List (Job State α)} {others : List (Job Other α)}
    (h : List.Forall₂ (Seen view) jobs others) : Seen view (inOrder jobs) (inOrder others) := by
  induction h with
  | nil => exact seen_pure []
  | cons first _ ih => exact first.bind fun result => ih.map (result :: ·)

/-- Jobs side by side are seen as those of the other run. -/
theorem seen_together {jobs : List (Job State α)} {others : List (Job Other α)}
    (h : List.Forall₂ (Seen view) jobs others) : Seen view (together jobs) (together others) := by
  induction h with
  | nil => exact seen_pure []
  | cons first _ ih => exact fun world => ((first world).beside ih).map _

end Job

namespace Plan

variable {State Other : Type} {view : World.View State Other}

/-- A plan does the same if its calls do. -/
theorem seen_start {perform : Call → Job State Outcome} {perform' : Call → Job Other Outcome}
    (h : ∀ call, Job.Seen view (perform call) (perform' call)) (plan : Plan) :
    Job.Seen view (plan.start perform) (plan.start perform') := by
  induction plan using Plan.induction with
  | done completion => exact Job.seen_pure completion
  | call call next ih => exact (h call).bind ih
  | group serial parts finish ih =>
    have each : List.Forall₂ (Job.Seen view) (startAll perform parts)
        (startAll perform' parts) := by
      rw [startAll_eq_map, startAll_eq_map, List.forall₂_map_left_iff, List.forall₂_map_right_iff,
        List.forall₂_same]
      exact ih
    rw [start, start]
    split
    · exact (Job.seen_inOrder each).map finish
    · exact (Job.seen_together each).map finish

end Plan

/-- A view that leaves the state to the resolvers as it is: another clock runs as fast, and more may
have happened before, to other calls. -/
structure World.View.Plain {State : Type} (view : World.View State State) (moved : Call → Call) :
    Prop where
  state : ∀ world, (view.see world).state = world.state
  add : ∀ now time, view.clock (now + time) = view.clock now + time
  write : ∀ world state, (view.see world).write state = view.see (world.write state)
  abort : ∀ world, { view.see world with aborted := true } = view.see { world with aborted := true }
  started : ∀ world call, (view.see world).record (.started (moved call)) =
    view.see (world.record (.started call))
  ended : ∀ world call outcome, (view.see world).record (.ended (moved call) outcome) =
    view.see (world.record (.ended call outcome))

namespace Action

variable {State : Type} {view : World.View State State} {moved : Call → Call}

/-- A call ends with the same outcome in a world as it is seen. -/
theorem seen_settle (plain : view.Plain moved) (call : Call) (outcome : Outcome) :
    Job.Seen view (settle call outcome) (settle (moved call) outcome) := by
  intro world
  rw [settle, settle, plain.ended]
  exact .done _ _

/-- A call is given up in a world as it is seen too. -/
theorem seen_abort (plain : view.Plain moved) (call : Call) :
    Job.Seen view (abort call) (abort (moved call)) := by
  intro world
  rw [abort, abort, plain.abort]
  exact seen_settle plain call .aborted _

/-- An action does the same under a plain view, where its limit is seen on the other clock. -/
theorem seen_run (plain : view.Plain moved) (call : Call) (deadline : Option Deadline)
    (action : Action State) :
    Job.Seen view (action.run call deadline) (action.run (moved call)
      (deadline.map fun limit => { limit with instant := view.clock limit.instant })) := by
  induction action generalizing deadline with
  | done result =>
    cases result with
    | ok value => exact seen_settle plain call _
    | error error => exact seen_settle plain call _
  | read next ih =>
    intro world
    simp only [run, plain.state]
    exact ih world.state deadline world
  | write state next ih =>
    intro world
    simp only [run, plain.write]
    exact ih deadline (world.write state)
  | cancel next ih =>
    intro world
    simp only [run, view.cancel_see]
    exact ih deadline { world with cancelled := true }
  | wait milliseconds next ih =>
    intro world
    by_cases zero : milliseconds = 0
    · simp only [run, if_pos zero]
      exact ih deadline world
    cases deadline with
    | none =>
      simp only [run, if_neg zero, Option.map_none, view.now_see, ← plain.add]
      refine .paused fun later => ?_
      rw [view.cancelled_see]
      split
      · exact seen_abort plain call later
      · exact ih none later
    | some limit =>
      -- the limit is over in one world just when it is in the other
      simp only [run, if_neg zero, Option.map_some, view.now_see, ← plain.add, view.clock_le_iff,
        ← view.clock_min]
      split
      · exact seen_settle plain call _ world
      · refine .paused fun later => ?_
        simp only [view.cancelled_see, view.now_see, view.clock_le_iff]
        split
        · exact seen_abort plain call later
        · split
          · exact ih (some limit) later
          · exact seen_settle plain call _ later

end Action

namespace Registry

variable {State : Type} {view : World.View State State} {moved : Call → Call}

/-- A binding that is found in a registry is one of its own. -/
theorem mem_of_lookup {registry : Registry State} {typeName fieldName : String}
    {binding : Binding State} (found : registry.lookup typeName fieldName = .ok binding) :
    binding ∈ registry.bindings := by
  unfold lookup at found
  split at found
  · next listed =>
    cases found
    exact List.mem_of_find?_eq_some listed
  · cases found

/-- Performing a call does the same under a plain view, if it is a call of the same resolver, which
does the same. -/
theorem seen_perform (plain : view.Plain moved) (registry : Registry State)
    (timeout : Option Duration) {call : Call} (type : (moved call).typeName = call.typeName)
    (field : (moved call).fieldName = call.fieldName)
    (ignores : ∀ binding ∈ registry.bindings,
      binding.resolver (moved call) = binding.resolver call) :
    Job.Seen view (registry.perform timeout call) (registry.perform timeout (moved call)) := by
  intro world
  unfold perform
  rw [type, field]
  cases found : registry.lookup call.typeName call.fieldName with
  | error cause => exact Action.seen_settle plain call _ world
  | ok binding =>
    dsimp only
    rw [view.cancelled_see]
    by_cases cancelled : world.cancelled = true
    · rw [if_pos cancelled, if_pos cancelled]
      exact Action.seen_abort plain call world
    · rw [if_neg cancelled, if_neg cancelled]
      -- the time limit runs from the instant at which the call is made
      have limit : (timeout.map fun span => Deadline.after span (view.see world).now) =
          (timeout.map fun span => Deadline.after span world.now).map
            fun limit => { limit with instant := view.clock limit.instant } := by
        cases timeout with
        | none => rfl
        | some span => simp only [Option.map_some, Deadline.after, view.now_see, plain.add]
      rw [limit, plain.started, ignores binding (mem_of_lookup found)]
      exact Action.seen_run plain call _ _ _

end Registry

end GraphQL
