import GraphQL.Proofs.Jobs.Groupings
import GraphQL.Proofs.Positions.CallOrder

/-!
# Resolvers that never wait

A job that never waits is over as soon as it is started. Side by side such jobs do what they do one
after the other, since each of them has ended when the next one takes its turn
(`Job.together_eq_inOrder`). So whether siblings run concurrently makes no difference to an
operation whose resolvers never wait, and its calls follow each other depth-first, also if one of
them cancels the operation (`Engine.execute_instant`).
-/

set_option autoImplicit false

namespace GraphQL

/-- The action reads, writes and cancels, but it never waits, unless for no time at all. -/
inductive Action.Instant {State : Type} : Action State → Prop
  | done (result : Except FieldError Json) : Instant (.done result)
  | read {next : State → Action State} (h : ∀ state, Instant (next state)) : Instant (.read next)
  | write {state : State} {next : Action State} (h : Instant next) : Instant (.write state next)
  | cancel {next : Action State} (h : Instant next) : Instant (.cancel next)
  | idle {next : Action State} (h : Instant next) : Instant (.wait 0 next)

/-- No resolver of the registry ever waits. -/
def Registry.Instant {State : Type} (registry : Registry State) : Prop :=
  ∀ binding ∈ registry.bindings, ∀ call, (binding.resolver call).Instant

/-- Whether a call was made and not given up. -/
def Outcome.isAnswered : Outcome → Bool
  | .value _ | .failed _ | .timedOut _ => true
  | .aborted | .unbound _ => false

/-- The answer to a call that is over as soon as it is made. -/
def Answer.atOnce (call : Call) (outcome : Outcome) : Answer :=
  { call, outcome, made := outcome.isAnswered }

/-- Where each call is over before the next one starts, those that are made follow each other as the
calls do. -/
theorem World.calls_of_atOnce {State : Type} {world : World State} {calls : List Call}
    {outcome : Call → Outcome} (history : world.history =
      calls.flatMap fun call => (Answer.atOnce call (outcome call)).events) :
    world.calls = calls.filter fun call => (outcome call).isAnswered := by
  rw [World.calls, history]
  clear history
  induction calls with
  | nil => rfl
  | cons call rest ih =>
    rw [List.flatMap_cons, List.filterMap_append, ih, List.filter_cons]
    cases answered : (outcome call).isAnswered <;> simp [Answer.events, Answer.atOnce, answered]

namespace Job

variable {State α β : Type}

/-- The job is over as soon as it is started, and a postcondition holds of the events that it adds
to the history and of its result. -/
def AtOnce (post : List Event → α → Prop) (job : Job State α) : Prop :=
  ∀ world, ∃ after result events, job world = .done after result ∧
    after.history = world.history ++ events ∧ post events result

/-- What is over at once with some result is so under a weaker description. -/
theorem AtOnce.mono {post post' : List Event → α → Prop} {job : Job State α} (h : job.AtOnce post)
    (imp : ∀ events result, post events result → post' events result) : job.AtOnce post' := by
  intro world
  obtain ⟨after, result, events, ends, history, holds⟩ := h world
  exact ⟨after, result, events, ends, history, imp events result holds⟩

/-- A job that has its result at once leaves no events. -/
theorem atOnce_pure (result : α) :
    (pure result : Job State α).AtOnce fun events r => events = [] ∧ r = result :=
  fun world => ⟨world, result, [], rfl, (List.append_nil _).symm, rfl, rfl⟩

/-- A changed result is there as soon as the result is. -/
theorem AtOnce.map {post : List Event → α → Prop} {job : Job State α} (f : α → β)
    (h : job.AtOnce post) : (job.map f).AtOnce fun events b => ∃ a, b = f a ∧ post events a := by
  intro world
  obtain ⟨after, result, events, ends, history, holds⟩ := h world
  exact ⟨after, f result, events, by rw [Job.map, ends]; rfl, history, result, rfl, holds⟩

/-- A job that is over at once, and one that follows it and is too, are over at once together. -/
theorem AtOnce.bind {first : List Event → α → Prop} {second : α → List Event → β → Prop}
    {job : Job State α} {next : α → Job State β} (h : job.AtOnce first)
    (hnext : ∀ a, (next a).AtOnce (second a)) :
    (job.bind next).AtOnce fun events b =>
      ∃ a before after, events = before ++ after ∧ first before a ∧ second a after b := by
  intro world
  obtain ⟨between, a, before, ends, history, ha⟩ := h world
  obtain ⟨last, b, after, ends', history', hb⟩ := hnext a between
  refine ⟨last, b, before ++ after, ?_, ?_, a, before, after, rfl, ha, hb⟩
  · rw [Job.bind, ends, Progress.bind, ends']
  · rw [history', history, List.append_assoc]

/-- One after the other, the events of jobs that are over at once follow each other. -/
theorem AtOnce.inOrder_cons {first : List Event → α → Prop} {others : List Event → List α → Prop}
    {job : Job State α} {rest : List (Job State α)} (h : job.AtOnce first)
    (hrest : (inOrder rest).AtOnce others) :
    (inOrder (job :: rest)).AtOnce fun events results => ∃ result results' before after,
      results = result :: results' ∧ events = before ++ after ∧ first before result ∧
        others after results' := by
  refine (h.bind fun result => hrest.map (result :: ·)).mono ?_
  rintro events results ⟨result, before, after, rfl, hb, results', rfl, ha⟩
  exact ⟨result, results', before, after, rfl, rfl, hb, ha⟩

/-- Side by side, jobs that are over at once do what they do one after the other. -/
theorem together_eq_inOrder {jobs : List (Job State α)}
    (h : ∀ job ∈ jobs, ∃ post, job.AtOnce post) : together jobs = inOrder jobs := by
  induction jobs with
  | nil => rfl
  | cons job rest ih =>
    obtain ⟨⟨post, first⟩, others⟩ := List.forall_mem_cons.1 h
    funext world
    obtain ⟨after, result, events, ends, -, -⟩ := first world
    have last : together rest after = inOrder rest after := congrFun (ih others) after
    have sideBySide : together (job :: rest) world =
        ((job world).beside (together rest)).map fun both => both.1 :: both.2 := rfl
    have ended : (Progress.done after result).beside (together rest) =
        (together rest after).map fun others => (result, others) := rfl
    rw [sideBySide, inOrder, Job.bind, ends, ended, Progress.map_map, last]
    rfl

end Job

namespace Action

variable {State : Type}

/-- An action that never waits ends at once with the result of its own. -/
theorem Instant.run {action : Action State} (h : action.Instant) (call : Call)
    (deadline : Option Deadline) :
    (action.run call deadline).AtOnce fun events outcome =>
      outcome.isAnswered = true ∧ events = [.ended call outcome] := by
  induction h with
  | done result =>
    intro world
    cases result with
    | ok value => exact ⟨_, _, _, rfl, rfl, rfl, rfl⟩
    | error error => exact ⟨_, _, _, rfl, rfl, rfl, rfl⟩
  | read h ih => exact fun world => ih world.state world
  | write h ih => exact fun world => ih (world.write _)
  | cancel h ih => exact fun world => ih { world with cancelled := true }
  | idle h ih => exact fun world => ih world

end Action

namespace Registry

variable {State : Type} {registry : Registry State}

/-- The resolver that is found for a field never waits, if none does. -/
theorem Instant.of_lookup (instant : registry.Instant) {typeName fieldName : String}
    {binding : Binding State} (bound : registry.lookup typeName fieldName = .ok binding)
    (call : Call) : (binding.resolver call).Instant := by
  unfold lookup at bound
  split at bound
  · next found =>
    cases bound
    exact instant binding (List.mem_of_find?_eq_some found) call
  · cases bound

/-- A call is over before anything else happens, whatever it ends with. -/
theorem Instant.perform (instant : registry.Instant) (timeout : Option Duration) (call : Call) :
    (registry.perform timeout call).AtOnce fun events outcome =>
      events = (Answer.atOnce call outcome).events := by
  intro world
  unfold Registry.perform
  cases bound : registry.lookup call.typeName call.fieldName with
  | error cause => exact ⟨_, _, _, rfl, rfl, rfl⟩
  | ok binding =>
    by_cases cancelled : world.cancelled = true
    · simp only [if_pos cancelled]
      exact ⟨_, _, _, rfl, rfl, rfl⟩
    · simp only [if_neg cancelled]
      obtain ⟨after, outcome, events, ends, history, answered, rfl⟩ :=
        (instant.of_lookup bound call).run call (timeout.map fun span => .after span world.now)
          (world.record (.started call))
      refine ⟨after, outcome, _, ends, ?_, rfl⟩
      rw [history, World.record, Answer.atOnce, answered, List.append_assoc]
      rfl

end Registry

namespace Plan

variable {State : Type} {perform : Call → Job State Outcome}

/-- A plan comes to something by answers that are over at once, and the events are those of the
answers in their order. -/
def Settled (plan : Plan) (events : List Event) (completion : Completion) : Prop :=
  ∃ answers, plan.Yields answers completion ∧
    (∀ answer ∈ answers, answer = .atOnce answer.call answer.outcome) ∧
    events = answers.flatMap Answer.events

/-- The parts of a group that are over at once, one after the other. -/
theorem atOnce_inOrder {serial : Bool} (parts : List Plan) (finish : List Completion → Completion)
    (h : ∀ part ∈ parts, (part.start perform).AtOnce part.Settled) :
    ((Job.inOrder (parts.map (·.start perform))).map finish).AtOnce
      (group serial parts finish).Settled := by
  suffices each : (Job.inOrder (parts.map (·.start perform))).AtOnce fun events completions =>
      ∃ results : List (List Answer × Completion), completions = results.map Prod.snd ∧
        List.Forall₂ (fun part result => part.Yields result.1 result.2) parts results ∧
        (∀ answer ∈ results.flatMap Prod.fst, answer = .atOnce answer.call answer.outcome) ∧
        events = (results.flatMap Prod.fst).flatMap Answer.events by
    refine (each.map finish).mono ?_
    rintro events completion ⟨_, rfl, results, rfl, yields, own, rfl⟩
    exact ⟨_, .group yields, own, rfl⟩
  induction parts with
  | nil =>
    refine (Job.atOnce_pure []).mono ?_
    rintro events completions ⟨rfl, rfl⟩
    exact ⟨[], rfl, .nil, by simp, rfl⟩
  | cons part rest ih =>
    obtain ⟨first, others⟩ := List.forall_mem_cons.1 h
    refine (first.inOrder_cons (ih others)).mono ?_
    rintro events completions ⟨completion, completions, before, after, rfl, rfl,
      ⟨answers, yields, own, rfl⟩, results, rfl, each, owns, rfl⟩
    refine ⟨(answers, completion) :: results, rfl, .cons yields each, ?_, ?_⟩
    · rw [List.flatMap_cons]
      exact List.forall_mem_append.2 ⟨own, owns⟩
    · rw [List.flatMap_cons, List.flatMap_append]

/-- Where calls are over at once, so is a plan, and it does the same however its parts are run. -/
theorem start_regroup (h : ∀ call, (perform call).AtOnce fun events outcome =>
      events = (Answer.atOnce call outcome).events) (serial : Bool) (plan : Plan) :
    (plan.start perform).AtOnce plan.Settled ∧
      (plan.regroup serial).start perform = plan.start perform := by
  induction plan using Plan.induction with
  | done completion =>
    refine ⟨(Job.atOnce_pure completion).mono ?_, rfl⟩
    rintro events _ ⟨rfl, rfl⟩
    exact ⟨[], .done _, by simp, rfl⟩
  | call call next ih =>
    constructor
    · refine ((h call).bind fun outcome => (ih outcome).1).mono ?_
      rintro events completion ⟨outcome, _, _, rfl, rfl, answers, yields, own, rfl⟩
      exact ⟨.atOnce call outcome :: answers, .call yields, List.forall_mem_cons.2 ⟨rfl, own⟩, rfl⟩
    · rw [regroup, start, start]
      congr 1
      funext outcome
      exact (ih outcome).2
  | group own parts finish ih =>
    have jobs : (parts.map (·.regroup serial)).map (·.start perform) =
        parts.map (·.start perform) := by
      rw [List.map_map]
      exact List.map_congr_left fun part member => (ih part member).2
    -- however the parts are run, it is as if they were run in order
    have inOrder : ∀ own : Bool, (group own parts finish).start perform =
        (Job.inOrder (parts.map (·.start perform))).map finish := by
      intro own
      have together : Job.together (parts.map (·.start perform)) =
          Job.inOrder (parts.map (·.start perform)) := by
        refine Job.together_eq_inOrder fun job member => ?_
        obtain ⟨part, hpart, rfl⟩ := List.mem_map.1 member
        exact ⟨_, (ih part hpart).1⟩
      rw [start, startAll_eq_map, together, ite_self]
    constructor
    · rw [inOrder]
      exact atOnce_inOrder parts finish fun part member => (ih part member).1
    · rw [regroup, regroupAll_eq_map, start_group_congr jobs, inOrder, inOrder]

end Plan

namespace Engine

variable {State : Type}

/-- A run that never waits does the same however the parts of its plan are run. Its calls follow
each other as they do in the plan, and each ends before the next one starts. -/
theorem run_instant (engine : Engine State) (instant : engine.registry.Instant) (plan : Plan)
    (state : State) (cancelAt : Option Nat) :
    (∀ serial, engine.run (plan.regroup serial) state cancelAt = engine.run plan state cancelAt) ∧
      plan.Settled (engine.run plan state cancelAt).1.history
        (engine.run plan state cancelAt).2 := by
  have perform := instant.perform engine.configuration.resolverTimeout
  constructor
  · intro serial
    rw [run, run, (Plan.start_regroup perform serial plan).2]
  · obtain ⟨after, completion, events, ends, history, settled⟩ :=
      (Plan.start_regroup perform true plan).1 { state, cancelled := cancelAt == some 0 }
    have ran : engine.run plan state cancelAt = (after, completion) := by
      rw [run, ends]
      rfl
    rw [ran, history]
    exact settled

/-- The engine whose siblings run concurrently, or one after the other. -/
def withSiblings (engine : Engine State) (parallel : Bool) : Engine State :=
  { engine with configuration := { engine.configuration with parallelSiblings := parallel } }

/-- If no resolver ever waits, it makes no difference whether siblings run concurrently: the same
calls are made, with the same effects and at the same time, and the response is the same. The calls
follow each other as they do in the plan of the operation, and each ends before the next one starts.
So they are made depth-first, in the order of the document. -/
theorem execute_instant (engine : Engine State) (instant : engine.registry.Instant)
    (request : Request) (state : State) (cancelAt : Option Nat) :
    (engine.withSiblings true).execute request state cancelAt =
        (engine.withSiblings false).execute request state cancelAt ∧
      ∀ parallel operation rootType, engine.select request = .ok (operation, rootType) →
        let plan := operation.plan engine.schema parallel request.variableValues rootType
        let world := ((engine.withSiblings parallel).execute request state cancelAt).world
        let root := engine.positions request operation rootType world.outcome
        world.history = (plan.calls world.outcome).flatMap (fun call =>
          (Answer.atOnce call (world.outcome call)).events) ∧
        world.calls.Pairwise fun earlier later =>
          earlier.path.Below later.path ∨ root.Precedes earlier.path later.path := by
  constructor
  · cases selected : engine.select request with
    | error cause =>
      have refused : ∀ parallel, (engine.withSiblings parallel).select request = .error cause :=
        fun _ => selected
      rw [execute, execute, refused, refused]
    | ok chosen =>
      obtain ⟨operation, rootType⟩ := chosen
      rw [execute_of_select (engine.withSiblings true) state cancelAt selected,
        execute_of_select (engine.withSiblings false) state cancelAt selected]
      have same := (run_instant (engine.withSiblings true) instant (operation.plan engine.schema true
        request.variableValues rootType) state cancelAt).1 true
      rw [Operation.regroup_plan] at same
      exact congrArg (fun run : World State × Completion =>
        ({ response := respond run.2 run.1.aborted, world := run.1 } : Execution State)) same.symm
  · intro parallel operation rootType selected plan world root
    obtain ⟨-, answers, yields, own, history⟩ :=
      run_instant (engine.withSiblings parallel) instant plan state cancelAt
    have ran : world = ((engine.withSiblings parallel).run plan state cancelAt).1 := by
      rw [show world = _ from congrArg Execution.world
        (execute_of_select (engine.withSiblings parallel) state cancelAt selected)]
      rfl
    rw [← ran] at history
    have distinct := operation.nodup_calls_plan engine.schema parallel request.variableValues
      rootType yields
    have agree : ∀ answer ∈ answers, world.outcome answer.call = answer.outcome :=
      fun answer member => World.outcome_of_perm (.of_eq history) distinct member
    -- the plan is evaluated by the outcomes of the run, which are those of its answers
    have inPlan : world.history = (plan.calls world.outcome).flatMap fun call =>
        (Answer.atOnce call (world.outcome call)).events := by
      rw [(yields.eval_eq agree).2, List.flatMap_map, history, List.flatMap_def, List.flatMap_def]
      congr 1
      refine List.map_congr_left fun answer member => ?_
      rw [agree answer member, ← own answer member]
    refine ⟨inPlan, ?_⟩
    rw [World.calls_of_atOnce inPlan]
    exact (Marking.pairwise_calls_root engine.schema operation request.variableValues world.outcome
      rootType parallel).filter _

/-- An engine whose resolvers count their calls. One of them cancels the operation. -/
def counting : Engine Nat where
  schema := sample.schema
  registry :=
    { bindings :=
        [{ typeName := "Query", fieldName := "lenient",
           resolver := fun _ => .read fun count =>
             .write (count + 1) (.done (.ok (.ofInt count))) },
          { typeName := "Query", fieldName := "strict",
            resolver := fun _ => .read fun count =>
              .write (count + 1) (.cancel (.done (.ok (.ofInt count)))) }] }

/-- Of three calls the second one cancels the operation, so that the third one is not made, whether
siblings run concurrently or not. -/
theorem execute_instant_counting :
    let request : Request := { query := some "{lenient strict again: lenient}" }
    (counting.withSiblings true).execute request 0 none =
        (counting.withSiblings false).execute request 0 none ∧
      ∃ operation rootType, counting.select request = .ok (operation, rootType) ∧
        let world := ((counting.withSiblings true).execute request 0 none).world
        world.state = 2 ∧ world.calls.map (·.fieldName) = ["lenient", "strict"] ∧
        world.calls.Pairwise fun earlier later => earlier.path.Below later.path ∨
          (counting.positions request operation rootType world.outcome).Precedes earlier.path
            later.path := by
  intro request
  have instant : counting.registry.Instant := by
    intro binding member call
    simp only [counting, List.mem_cons, List.not_mem_nil, or_false] at member
    rcases member with rfl | rfl
    · exact .read fun count => .write (.done _)
    · exact .read fun count => .write (.cancel (.done _))
  obtain ⟨operation, rootType, selected⟩ :
      ∃ operation rootType, counting.select request = .ok (operation, rootType) :=
    exists_selected (by decide +kernel)
  obtain ⟨same, each⟩ := counting.execute_instant instant request 0 none
  exact ⟨same, operation, rootType, selected, by decide +kernel, by decide +kernel,
    (each true operation rootType selected).2⟩

end Engine

end GraphQL
