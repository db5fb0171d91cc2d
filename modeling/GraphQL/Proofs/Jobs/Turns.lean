import GraphQL.Engine
import GraphQL.Proofs.Jobs.Invariants
import GraphQL.Proofs.Jobs.Views

/-!
# Runs turn by turn

A call is made in turns: it goes on until it ends or has to wait, and then the others have theirs.
The history of a run tells what happened in all of these turns, but not whether the operation was
cancelled by then. A run that also keeps a log does (`Engine.logged`). The log is a ghost beside the
state that the resolvers share: where it is forgotten, the run is the same (`Engine.forget_logged`).

What one turn does is a matter of how calls are performed (`Registry.perform_eachTurn`). That the
turns of a run fit together is an invariant of the logged run (`World.Chronicle`), kept by each turn
and by the clock (`Engine.logged_chronicle`).
-/

set_option autoImplicit false

namespace GraphQL

/-- What a call does before it ends or waits: at which instant, whether the operation is cancelled
at the beginning and in the end, and what happens. -/
structure Turn where
  call : Call
  instant : Nat
  cancelledBefore : Bool
  cancelledAfter : Bool
  events : List Event

namespace Turn

variable {State : Type}

/-- The turn of a call that went on in some world and left another one. -/
def between (call : Call) (begun left : World State) : Turn where
  call
  instant := begun.now
  cancelledBefore := begun.cancelled
  cancelledAfter := left.cancelled
  events := left.history.drop begun.history.length

/-- What a turn may be. A cancellation is not taken back. If the operation is cancelled already, the
call is given up, or there is no resolver for it; else it may start and end, but is not given up. -/
structure Sound (turn : Turn) : Prop where
  lasts : turn.cancelledBefore = true → turn.cancelledAfter = true
  refused : turn.cancelledBefore = true → turn.events = [.ended turn.call .aborted] ∨
    ∃ cause, turn.events = [.ended turn.call (.unbound cause)]
  kept : turn.cancelledBefore = false → ∀ event ∈ turn.events, event = .started turn.call ∨
    ∃ outcome, event = .ended turn.call outcome ∧ outcome ≠ .aborted

/-- What a turn of a call makes of a world: no time passes, events are added, and the turn is one
that may be. -/
structure Makes (call : Call) (begun left : World State) : Prop where
  now : left.now = begun.now
  history : begun.history <+: left.history
  sound : (between call begun left).Sound

/-- The history after a turn is that before it and the events of the turn. -/
theorem append_events {call : Call} {begun left : World State} (makes : Makes call begun left) :
    begun.history ++ (between call begun left).events = left.history :=
  List.prefix_iff_eq_append.1 makes.history

/-- The events of a turn are those that it added to the history. -/
theorem events_between {call : Call} {begun left : World State} {events : List Event}
    (happened : left.history = begun.history ++ events) :
    (between call begun left).events = events := by
  rw [between, happened, List.drop_left]

/-- An operation that is not cancelled, in the middle of the turn of a call: the call may have been
started since the turn began, and nothing else happened. -/
structure Amid (call : Call) (begun world : World State) : Prop where
  uncancelled : begun.cancelled = false
  now : world.now = begun.now
  history : ∃ events, world.history = begun.history ++ events ∧
    ∀ event ∈ events, event = .started call

/-- A turn that has just begun is in its middle. -/
theorem Amid.refl (call : Call) {world : World State} (uncancelled : world.cancelled = false) :
    Amid call world world :=
  ⟨uncancelled, rfl, [], (List.append_nil _).symm, by simp⟩

/-- A turn that is over while the operation was not cancelled when it began. -/
theorem makes_of_uncancelled {call : Call} {begun left : World State} {events : List Event}
    (uncancelled : begun.cancelled = false) (now : left.now = begun.now)
    (happened : left.history = begun.history ++ events)
    (kept : ∀ event ∈ events, event = .started call ∨
      ∃ outcome, event = .ended call outcome ∧ outcome ≠ .aborted) : Makes call begun left := by
  have early : ¬ (between call begun left).cancelledBefore = true := by simp [between, uncancelled]
  refine ⟨now, ⟨events, happened.symm⟩, ?_, ?_, ?_⟩
  · exact fun cancelled => absurd cancelled early
  · exact fun cancelled => absurd cancelled early
  · intro _
    rw [events_between happened]
    exact kept

/-- A turn may be over in the middle of a call. -/
theorem Amid.paused {call : Call} {begun world : World State} (amid : Amid call begun world) :
    Makes call begun world := by
  obtain ⟨events, happened, started⟩ := amid.history
  exact makes_of_uncancelled amid.uncancelled amid.now happened fun event member =>
    .inl (started event member)

/-- A turn may be over with the end of its call. -/
theorem Amid.settled {call : Call} {begun world : World State} (amid : Amid call begun world)
    {outcome : Outcome} (kept : outcome ≠ .aborted) :
    Makes call begun (world.record (.ended call outcome)) := by
  obtain ⟨events, happened, started⟩ := amid.history
  have extended : (world.record (.ended call outcome)).history =
      begun.history ++ (events ++ [.ended call outcome]) := by
    rw [World.record, happened, List.append_assoc]
  refine makes_of_uncancelled amid.uncancelled amid.now extended ?_
  · intro event member
    rcases List.mem_append.1 member with before | last
    · exact .inl (started event before)
    · exact .inr ⟨outcome, List.mem_singleton.1 last, kept⟩

/-- In an operation that is cancelled a call is given up at once. -/
theorem makes_abort {call : Call} {begun : World State} (cancelled : begun.cancelled = true) :
    Makes call begun ({ begun with aborted := true }.record (.ended call .aborted)) := by
  have happened : (between call begun
      ({ begun with aborted := true }.record (.ended call .aborted))).events =
        [.ended call .aborted] := events_between rfl
  have late : ¬ (between call begun
      ({ begun with aborted := true }.record (.ended call .aborted))).cancelledBefore = false := by
    simp [between, cancelled]
  refine ⟨rfl, List.prefix_append _ _, fun _ => cancelled, fun _ => .inl happened, ?_⟩
  exact fun uncancelled => absurd uncancelled late

/-- A call without a resolver ends with that, cancelled or not. -/
theorem makes_unbound (call : Call) (begun : World State) (cause : BindingError) :
    Makes call begun (begun.record (.ended call (.unbound cause))) := by
  have happened : (between call begun (begun.record (.ended call (.unbound cause)))).events =
      [.ended call (.unbound cause)] := events_between rfl
  refine ⟨rfl, List.prefix_append _ _, id, fun _ => .inr ⟨cause, happened⟩, fun _ => ?_⟩
  rw [happened]
  intro event member
  exact .inr ⟨_, List.mem_singleton.1 member, by simp⟩

/-- Turns among which a cancellation is not taken back are those before it, the turn in which it
happened included, and those after it. -/
theorem exists_split {turns : List Turn} (sound : ∀ turn ∈ turns, turn.Sound)
    (lasting : turns.Pairwise fun earlier later =>
      earlier.cancelledAfter = true → later.cancelledBefore = true) :
    ∃ free late, turns = free ++ late ∧ (∀ turn ∈ free, turn.cancelledBefore = false) ∧
      ∀ turn ∈ late, turn.cancelledBefore = true := by
  induction turns with
  | nil => exact ⟨[], [], rfl, by simp, by simp⟩
  | cons turn rest ih =>
    obtain ⟨first, others⟩ := List.forall_mem_cons.1 sound
    obtain ⟨onwards, lasting⟩ := List.pairwise_cons.1 lasting
    by_cases cancelled : turn.cancelledBefore = true
    · refine ⟨[], turn :: rest, rfl, by simp, List.forall_mem_cons.2 ⟨cancelled, ?_⟩⟩
      exact fun later member => onwards later member (first.lasts cancelled)
    · obtain ⟨free, late, rfl, before, after⟩ := ih others lasting
      exact ⟨turn :: free, late, rfl,
        List.forall_mem_cons.2 ⟨eq_false_of_ne_true cancelled, before⟩, after⟩

/-- The turns that begin after the cancellation start no call, and end those of which they are by
giving them up, if they have a resolver. -/
theorem Sound.late {turns : List Turn} (sound : ∀ turn ∈ turns, turn.Sound)
    (late : ∀ turn ∈ turns, turn.cancelledBefore = true) {event : Event}
    (happened : event ∈ turns.flatMap (·.events)) :
    ∃ call, event = .ended call .aborted ∨ ∃ cause, event = .ended call (.unbound cause) := by
  obtain ⟨turn, member, inside⟩ := List.mem_flatMap.1 happened
  refine ⟨turn.call, ?_⟩
  rcases (sound turn member).refused (late turn member) with only | ⟨cause, only⟩
  · exact .inl (List.mem_singleton.1 (only ▸ inside))
  · exact .inr ⟨cause, List.mem_singleton.1 (only ▸ inside)⟩

/-- In a turn that begins before the cancellation no call is given up. -/
theorem Sound.free {turns : List Turn} (sound : ∀ turn ∈ turns, turn.Sound)
    (free : ∀ turn ∈ turns, turn.cancelledBefore = false) {call : Call} {outcome : Outcome}
    (happened : .ended call outcome ∈ turns.flatMap (·.events)) : outcome ≠ .aborted := by
  obtain ⟨turn, member, inside⟩ := List.mem_flatMap.1 happened
  rcases (sound turn member).kept (free turn member) _ inside with started | ⟨other, ended, kept⟩
  · cases started
  · cases ended
    exact kept

end Turn

namespace Progress

variable {State α : Type}

/-- Each time the computation goes on, the world that it leaves is related to the one in which it
went on. -/
def EachTurn (rel : World State → World State → Prop) (begun : World State) :
    Progress State α → Prop
  | done world _ => rel begun world
  | paused world _ resume => rel begun world ∧ ∀ later, (resume later).EachTurn rel later

end Progress

namespace Action

variable {State : Type}

/-- Each turn of a call that is being made is one that may be. -/
theorem run_eachTurn (call : Call) (deadline : Option Deadline) (action : Action State)
    {begun world : World State} (amid : Turn.Amid call begun world) :
    (action.run call deadline world).EachTurn (Turn.Makes call) begun := by
  induction action generalizing begun world deadline with
  | done result =>
    cases result with
    | ok value => exact amid.settled (by simp)
    | error error => exact amid.settled (by simp)
  | read next ih => exact ih world.state deadline amid
  | write state next ih => exact ih deadline ⟨amid.uncancelled, amid.now, amid.history⟩
  | cancel next ih => exact ih deadline ⟨amid.uncancelled, amid.now, amid.history⟩
  | wait milliseconds next ih =>
    by_cases zero : milliseconds = 0
    · simp only [run, if_pos zero]
      exact ih deadline amid
    cases deadline with
    | none =>
      simp only [run, if_neg zero]
      -- the wait ends the turn; whoever goes on begins another one
      refine ⟨amid.paused, fun later => ?_⟩
      dsimp only
      split
      · next cancelled => exact Turn.makes_abort cancelled
      · next uncancelled => exact ih none (.refl call (eq_false_of_ne_true uncancelled))
    | some limit =>
      simp only [run, if_neg zero]
      split
      · exact amid.settled (by simp)
      · refine ⟨amid.paused, fun later => ?_⟩
        dsimp only
        split
        · next cancelled => exact Turn.makes_abort cancelled
        · next uncancelled =>
          have afresh := Turn.Amid.refl call (eq_false_of_ne_true uncancelled)
          split
          · exact ih (some limit) afresh
          · exact afresh.settled (by simp)

end Action

namespace Registry

variable {State : Type}

/-- Each turn of a call is one that may be. -/
theorem perform_eachTurn (registry : Registry State) (timeout : Option Duration) (call : Call)
    (world : World State) :
    (registry.perform timeout call world).EachTurn (Turn.Makes call) world := by
  unfold perform
  split
  · exact Turn.makes_unbound call world _
  · split
    · next cancelled => exact Turn.makes_abort cancelled
    · next uncancelled =>
      refine Action.run_eachTurn call _ _ ⟨eq_false_of_ne_true uncancelled, rfl, ?_⟩
      exact ⟨[.started call], rfl, fun event => List.mem_singleton.1⟩

end Registry

namespace World

variable {State : Type}

/-- The log of a run that keeps one. -/
def turns (world : World (State × List Turn)) : List Turn :=
  world.state.2

/-- A world without its log. -/
def forget (world : World (State × List Turn)) : World State where
  state := world.state.1
  now := world.now
  cancelled := world.cancelled
  aborted := world.aborted
  history := world.history
  states := world.states.map Prod.fst

/-- A world with a log. -/
def withTurns (world : World State) (turns : List Turn) : World (State × List Turn) where
  state := (world.state, turns)
  now := world.now
  cancelled := world.cancelled
  aborted := world.aborted
  history := world.history
  states := world.states.map (·, turns)

/-- A log that was added can be forgotten. -/
@[simp] theorem forget_withTurns (world : World State) (turns : List Turn) :
    (world.withTurns turns).forget = world := by
  simp [forget, withTurns, Function.comp_def]

/-- A log that was added is there. -/
@[simp] theorem turns_withTurns (world : World State) (turns : List Turn) :
    (world.withTurns turns).turns = turns := rfl

/-- What an operation may be cancelled by at some instant: a cancellation that was asked for, if it
is due by then, or the turn of a call. -/
def Cause (cancelAt : Option Nat) (now : Nat) (turns : List Turn) : Prop :=
  (∃ instant ∈ cancelAt, instant ≤ now) ∨
    ∃ turn ∈ turns, turn.cancelledBefore = false ∧ turn.cancelledAfter = true

/-- A cause stays one. -/
theorem Cause.mono {cancelAt : Option Nat} {now : Nat} {turns more : List Turn}
    (h : Cause cancelAt now turns) (grows : turns <+: more) : Cause cancelAt now more :=
  h.imp id fun ⟨turn, member, cancels⟩ => ⟨turn, grows.subset member, cancels⟩

/-- The log of a run with a cancellation at some instant tells its history. Each turn is one that
may be. Once the operation is cancelled it stays so; it is from that instant on, and not before
unless a call cancels it. -/
structure Chronicle (cancelAt : Option Nat) (world : World (State × List Turn)) : Prop where
  history : world.turns.flatMap (·.events) = world.history
  sound : ∀ turn ∈ world.turns, turn.Sound
  lasting : world.turns.Pairwise fun earlier later =>
    earlier.cancelledAfter = true → later.cancelledBefore = true
  cancelled : ∀ turn ∈ world.turns, turn.cancelledAfter = true → world.cancelled = true
  timely : ∀ instant ∈ cancelAt, ∀ turn ∈ world.turns, instant ≤ turn.instant →
    turn.cancelledBefore = true
  due : ∀ instant ∈ cancelAt, instant ≤ world.now → world.cancelled = true
  caused : ∀ turn ∈ world.turns, turn.cancelledBefore = true →
    Cause cancelAt turn.instant world.turns
  cause : world.cancelled = true → Cause cancelAt world.now world.turns

/-- One more turn keeps the chronicle. -/
theorem Chronicle.add {cancelAt : Option Nat} {begun : World (State × List Turn)}
    (h : begun.Chronicle cancelAt) {call : Call} {left : World State}
    (makes : Turn.Makes call begun.forget left) :
    (left.withTurns (begun.turns ++ [.between call begun.forget left])).Chronicle cancelAt := by
  have lasts : begun.cancelled = true → left.cancelled = true := makes.sound.lasts
  have grows : begun.turns <+: begun.turns ++ [.between call begun.forget left] :=
    List.prefix_append _ _
  -- all turns but the last are known; of the last one its start and its end are
  refine ⟨?history, ?sound, ?lasting, ?cancelled, ?timely, ?due, ?caused, ?cause⟩
  case history =>
    rw [turns_withTurns, List.flatMap_append, h.history, List.flatMap_singleton]
    exact Turn.append_events makes
  case sound =>
    intro turn member
    rcases List.mem_append.1 member with before | last
    · exact h.sound turn before
    · exact List.mem_singleton.1 last ▸ makes.sound
  case lasting =>
    refine List.pairwise_append.2 ⟨h.lasting, List.pairwise_singleton _ _, ?_⟩
    intro earlier before later last cancelled
    rw [List.mem_singleton.1 last]
    exact h.cancelled earlier before cancelled
  case cancelled =>
    intro turn member cancelled
    rcases List.mem_append.1 member with before | last
    · exact lasts (h.cancelled turn before cancelled)
    · rw [List.mem_singleton.1 last] at cancelled
      exact cancelled
  case timely =>
    intro instant given turn member late
    rcases List.mem_append.1 member with before | last
    · exact h.timely instant given turn before late
    · rw [List.mem_singleton.1 last] at late ⊢
      exact h.due instant given late
  case due =>
    intro instant given late
    have same : left.now = begun.now := makes.now
    exact lasts (h.due instant given (same ▸ late))
  case caused =>
    intro turn member cancelled
    rcases List.mem_append.1 member with before | last
    · exact (h.caused turn before cancelled).mono grows
    · rw [List.mem_singleton.1 last] at cancelled ⊢
      exact (h.cause cancelled).mono grows
  case cause =>
    intro cancelled
    have same : left.now = begun.now := makes.now
    by_cases before : begun.cancelled = true
    · exact same ▸ (h.cause before).mono grows
    · exact .inr ⟨_, List.mem_append_right _ (List.mem_singleton_self _),
        eq_false_of_ne_true before, cancelled⟩

/-- Worlds seen without their log. -/
def unlogged : World.View (State × List Turn) State where
  see := forget
  clock := id
  clock_le_iff := .rfl
  see_at _ _ _ := rfl

end World

namespace Progress

variable {State α : Type}

/-- What a call does, with its turns written to the log: `turns` are those before, and the present
one began in the world `begun`. -/
def logged (call : Call) (turns : List Turn) (begun : World State) :
    Progress State α → Progress (State × List Turn) α
  | done world result => .done (world.withTurns (turns ++ [.between call begun world])) result
  | paused world wake resume =>
    .paused (world.withTurns (turns ++ [.between call begun world])) wake fun later =>
      (resume later.forget).logged call later.turns later.forget

/-- Whoever does not see the log sees the same. -/
theorem seen_logged (call : Call) (turns : List Turn) (begun : World State)
    (progress : Progress State α) :
    Seen World.unlogged (progress.logged call turns begun) progress := by
  have left : ∀ world : World State,
      World.unlogged.see (world.withTurns (turns ++ [.between call begun world])) = world :=
    fun world => World.forget_withTurns world _
  induction progress generalizing turns begun with
  | done world result =>
    have seen : Seen World.unlogged (logged call turns begun (.done world result))
        (.done (World.unlogged.see (world.withTurns (turns ++ [.between call begun world])))
          result) := .done _ result
    rwa [left] at seen
  | paused world wake resume ih =>
    have seen : Seen World.unlogged (logged call turns begun (.paused world wake resume))
        (.paused (World.unlogged.see (world.withTurns (turns ++ [.between call begun world])))
          (World.unlogged.clock wake) resume) :=
      .paused fun later => ih later.forget later.turns later.forget fun world =>
        World.forget_withTurns world _
    rwa [left] at seen

/-- A call whose turns may be keeps the chronicle. -/
theorem EachTurn.keepsFrom {cancelAt : Option Nat} {call : Call} {progress : Progress State α}
    {begun : World (State × List Turn)} (h : progress.EachTurn (Turn.Makes call) begun.forget)
    (holds : begun.Chronicle cancelAt) :
    (progress.logged call begun.turns begun.forget).KeepsFrom begun (World.Chronicle cancelAt)
      fun _ _ => True := by
  have grows : ∀ left : World State, Turn.Makes call begun.forget left →
      begun.Grows (left.withTurns (begun.turns ++ [.between call begun.forget left])) :=
    fun left makes => ⟨makes.history, makes.sound.lasts⟩
  induction progress generalizing begun with
  | done world result => exact ⟨grows world h, holds.add h, trivial⟩
  | paused world wake resume ih =>
    obtain ⟨makes, further⟩ := h
    refine KeepsFrom.of_grows (grows world makes) (keepsFrom_paused (holds.add makes) ?_)
    intro later _ holds'
    exact ih later.forget (further later.forget) holds' fun left makes =>
      ⟨makes.history, makes.sound.lasts⟩

end Progress

/-- A job for a call, with the turns of the call written to the log. -/
def Job.logged {State α : Type} (call : Call) (job : Job State α) : Job (State × List Turn) α :=
  fun world => (job world.forget).logged call world.turns world.forget

namespace Plan

variable {State : Type}

/-- A plan keeps the chronicle of its turns. -/
theorem logged_safe (registry : Registry State) (timeout : Option Duration) (cancelAt : Option Nat)
    (world : World (State × List Turn)) (plan : Plan) :
    (plan.start fun call => (registry.perform timeout call).logged call).Safe world
      (World.Chronicle cancelAt) := by
  induction plan using Plan.induction with
  | done completion => exact Job.safe_pure world completion
  | call call next ih =>
    refine Job.Safe.bind (fun later _ holds => ?_) ih
    exact (registry.perform_eachTurn timeout call later.forget).keepsFrom holds
  | group serial parts finish ih => exact safe_group ih

end Plan

namespace Engine

variable {State : Type}

/-- Runs a plan as `Engine.run` does, and keeps a log of the turns. -/
def logged (engine : Engine State) (plan : Plan) (state : State) (cancelAt : Option Nat) :
    World (State × List Turn) × Completion :=
  let perform := fun call =>
    (engine.registry.perform engine.configuration.resolverTimeout call).logged call
  let world : World (State × List Turn) :=
    { state := (state, []), cancelled := cancelAt == some 0 }
  (plan.start perform world).finish cancelAt

/-- Keeping a log makes no difference to a run. -/
theorem forget_logged (engine : Engine State) (plan : Plan) (state : State)
    (cancelAt : Option Nat) :
    engine.run plan state cancelAt = ((engine.logged plan state cancelAt).1.forget,
      (engine.logged plan state cancelAt).2) := by
  have each : ∀ call, Job.Seen World.unlogged
      ((engine.registry.perform engine.configuration.resolverTimeout call).logged call)
      (engine.registry.perform engine.configuration.resolverTimeout call) :=
    fun call world => Progress.seen_logged call world.turns world.forget _
  have seen := Plan.seen_start each plan
  have ended := (seen { state := (state, []), cancelled := cancelAt == some 0 }).finish cancelAt
  rwa [World.unlogged, Option.map_id] at ended

/-- The turns of a run fit together. -/
theorem logged_chronicle (engine : Engine State) (plan : Plan) (state : State)
    (cancelAt : Option Nat) : (engine.logged plan state cancelAt).1.Chronicle cancelAt := by
  have safe := plan.logged_safe engine.registry engine.configuration.resolverTimeout cancelAt
    { state := (state, []), cancelled := cancelAt == some 0 }
  refine (safe _ (World.Grows.refl _) ⟨rfl, by simp [World.turns], .nil, by simp [World.turns],
    by simp [World.turns], ?_, by simp [World.turns], ?_⟩).finish ?_ ?_
  · rintro instant ⟨⟩ start
    rw [Nat.le_zero.1 start]
    rfl
  · intro cancelled
    exact .inl ⟨0, eq_of_beq cancelled, Nat.le_refl 0⟩
  · intro later wake holds uncancelled early
    refine { holds with due := ?_, cause := ?_ }
    · rintro instant ⟨⟩ late
      simp [late] at early
    · intro cancelled
      exact absurd cancelled (ne_true_of_eq_false uncancelled)
  · intro later instant given holds
    refine { holds with cancelled := fun _ _ _ => rfl, due := fun _ _ _ => rfl, cause := ?_ }
    exact fun _ => .inl ⟨instant, given, Nat.le_refl _⟩

/-- The turns of a run up to the one in which the operation was cancelled, and those after it. From
the instant of the cancellation on they are of the second kind; before it just those are that follow
a turn in which a call cancelled the operation. -/
structure CancelledBetween (engine : Engine State) (plan : Plan) (state : State)
    (cancelAt : Option Nat) (free late : List Turn) : Prop where
  turns : (engine.logged plan state cancelAt).1.turns = free ++ late
  history : (free ++ late).flatMap (·.events) = (engine.run plan state cancelAt).1.history
  sound : ∀ turn ∈ free ++ late, turn.Sound
  before : ∀ turn ∈ free, turn.cancelledBefore = false
  after : ∀ turn ∈ late, turn.cancelledBefore = true
  timely : ∀ instant ∈ cancelAt, ∀ turn ∈ free ++ late, instant ≤ turn.instant →
    turn.cancelledBefore = true
  caused : ∀ turn ∈ late, World.Cause cancelAt turn.instant free

/-- Every run has such turns; there are none after the cancellation if there is none. -/
theorem exists_cancelledBetween (engine : Engine State) (plan : Plan) (state : State)
    (cancelAt : Option Nat) :
    ∃ free late, engine.CancelledBetween plan state cancelAt free late := by
  have chronicle := engine.logged_chronicle plan state cancelAt
  obtain ⟨free, late, split, before, after⟩ := Turn.exists_split chronicle.sound chronicle.lasting
  have history : (engine.run plan state cancelAt).1.history =
      (engine.logged plan state cancelAt).1.history := by
    rw [engine.forget_logged]
    rfl
  refine ⟨free, late, split, ?_, split ▸ chronicle.sound, before, after, split ▸ chronicle.timely,
    ?_⟩
  · rw [history, ← split]
    exact chronicle.history
  · intro turn member
    have cause := chronicle.caused turn (split ▸ List.mem_append_right _ member) (after turn member)
    -- a turn in which a call cancels the operation begins before the cancellation
    refine cause.imp id ?_
    rintro ⟨other, listed, uncancelled, cancels⟩
    refine ⟨other, ?_, uncancelled, cancels⟩
    rcases List.mem_append.1 (split ▸ listed) with early | later
    · exact early
    · exact absurd (after other later) (ne_true_of_eq_false uncancelled)

namespace CancelledBetween

variable {engine : Engine State} {plan : Plan} {state : State} {cancelAt : Option Nat}
  {free late : List Turn}

/-- After the cancellation no call starts. -/
theorem not_started (h : engine.CancelledBetween plan state cancelAt free late) (call : Call) :
    .started call ∉ late.flatMap (·.events) := by
  intro started
  obtain ⟨other, ended | ⟨cause, ended⟩⟩ :=
    Turn.Sound.late (List.forall_mem_append.1 h.sound).2 h.after started
  · cases ended
  · cases ended

/-- A call with a resolver that ends after the cancellation is given up. -/
theorem given_up (h : engine.CancelledBetween plan state cancelAt free late) {call : Call}
    {outcome : Outcome} (ended : .ended call outcome ∈ late.flatMap (·.events))
    (bound : ∀ cause, outcome ≠ .unbound cause) : outcome = .aborted := by
  obtain ⟨other, given | ⟨cause, missing⟩⟩ :=
    Turn.Sound.late (List.forall_mem_append.1 h.sound).2 h.after ended
  · cases given
    rfl
  · cases missing
    exact absurd rfl (bound cause)

/-- A call that ends before the cancellation is not given up. -/
theorem not_given_up (h : engine.CancelledBetween plan state cancelAt free late) {call : Call}
    {outcome : Outcome} (ended : .ended call outcome ∈ free.flatMap (·.events)) :
    outcome ≠ .aborted :=
  Turn.Sound.free (List.forall_mem_append.1 h.sound).1 h.before ended

/-- What happens, happens before the cancellation or after it. -/
theorem mem_history (h : engine.CancelledBetween plan state cancelAt free late) {event : Event} :
    event ∈ (engine.run plan state cancelAt).1.history ↔
      event ∈ free.flatMap (·.events) ∨ event ∈ late.flatMap (·.events) := by
  rw [← h.history, List.flatMap_append, List.mem_append]

end CancelledBetween

end Engine

end GraphQL
