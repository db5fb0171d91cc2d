import GraphQL.Proofs.Jobs.Schedules
import GraphQL.Proofs.Jobs.Turns
import GraphQL.Proofs.Positions.Divergence

/-!
# Cancellation

A cancellation takes from a response what the calls that it gave up would have given, and nothing
else. Compared with the response to the same request without a cancellation, the nearest place that
may be null around each call that was given up is null, the errors at and below these calls are
missing, and one error tells of the cancellation (`Engine.execute_cancelled`). Which calls were
given up is not the run's own affair: those were that had a resolver and had not ended when the
operation was cancelled (`Engine.execute_givenUp`).

The calls that were given up are undone one at a time. Without one of them the positions are the
same but for the one at its path, so that the response changes in one place only
(`Position.SameBut.complete_of_givenUp`).
-/

set_option autoImplicit false

namespace GraphQL

namespace Position

/-- There is nothing below a position that fails. -/
theorem eq_of_isPrefix_failed {position below : Position} {place path : Path} {nonNull : Bool}
    {error : Option ResponseError} (failed : position.at? place = some (.failed nonNull error))
    (h : position.at? path = some below) (on : place <+: path) : path = place := by
  induction place generalizing position path with
  | nil =>
    cases failed
    cases path with
    | nil => rfl
    | cons step rest => cases h
  | cons step place ih =>
    obtain ⟨rest, rfl⟩ := on
    obtain ⟨part, hpart, inside⟩ := Option.bind_eq_some_iff.1 failed
    rw [List.cons_append, at?_cons hpart] at h
    exact congrArg (step :: ·) (ih inside h ⟨rest, rfl⟩)

/-- There is no error at or below a position that is given up. -/
theorem WellFormed.isWithin_eq_false_of_givenUp {aborted : Prop} {position : Position}
    (wf : position.WellFormed aborted []) {place : Path} {nonNull : Bool}
    (failed : position.at? place = some (.failed nonNull none)) {error : ResponseError}
    (member : error ∈ position.complete.errors) : error.isWithin place = false := by
  obtain ⟨path, nonNull', located, own⟩ := exists_path_of_mem_complete_errors wf member
  have away : ¬ place <+: path := by
    intro on
    obtain rfl := eq_of_isPrefix_failed failed own on
    rw [failed] at own
    cases own
  simpa [ResponseError.isWithin, located, ← List.isPrefixOf_iff_prefix] using away

/-- A position that is given up takes the nearest place around it that may be null, and the errors
at and below it. -/
theorem SameBut.complete_of_givenUp {aborted : Prop} {place : Path} {old new : Position}
    (h : SameBut place [] old new) (wf : old.WellFormed aborted [])
    (wf' : new.WellFormed aborted []) {nonNull : Bool}
    (failed : new.at? place = some (.failed nonNull none)) :
    new.complete.value =
        ((old.nearest? place).bind fun around =>
          old.complete.value.map (Json.setAt .null around)) ∧
      new.complete.errors = old.complete.errors.filter (fun error => !error.isWithin place) ∧
      ∀ path, (place <+: path → path = place) → new.nearest? path = old.nearest? path := by
  have replaced : ReplacedAt place old new := by
    rcases h with rfl | ⟨rest, rfl, replaced⟩
    · exact .refl failed
    · exact replaced
  have kept : new.complete.errors.filter (fun error => !error.isWithin place) =
      new.complete.errors := by
    rw [List.filter_eq_self]
    intro error member
    rw [wf'.isWithin_eq_false_of_givenUp failed member, Bool.not_false]
  refine ⟨replaced.complete_value_of_failed wf' failed, ?_, fun path => replaced.nearest?_eq⟩
  rw [← kept]
  exact replaced.complete_errors wf wf'

end Position

/-- The paths of the calls that were given up, in the order in which they were. -/
def World.givenUp {State : Type} (world : World State) : List Path :=
  world.history.filterMap fun
    | .ended call .aborted => some call.path
    | _ => none

/-- A path is listed as given up just if a call at it ended so. -/
theorem World.mem_givenUp {State : Type} {world : World State} {path : Path} :
    path ∈ world.givenUp ↔ ∃ call, .ended call .aborted ∈ world.history ∧ call.path = path := by
  unfold givenUp
  rw [List.mem_filterMap]
  constructor
  · rintro ⟨event, member, given⟩
    cases event with
    | started call => cases given
    | ended call outcome =>
      cases outcome with
      | aborted => exact ⟨call, member, Option.some.inj given⟩
      | value | failed | timedOut | unbound => cases given
  · rintro ⟨call, member, rfl⟩
    exact ⟨_, member, rfl⟩

/-- Data in which the nearest places around some paths are null; none where such a place is missing,
so that the null reaches the data as a whole. -/
def Json.nullAround (nearest : Path → Option Path) (paths : List Path) (data : Option Json) :
    Option Json :=
  paths.foldr
    (fun path data => (nearest path).bind fun place => data.map (Json.setAt .null place)) data

/-- With one path, the nearest place around it becomes null. -/
theorem Json.nullAround_singleton {nearest : Path → Option Path} {path place : Path}
    {data : Option Json} (h : nearest path = some place) :
    nullAround nearest [path] data = data.map (Json.setAt .null place) := by
  rw [nullAround, List.foldr_cons, List.foldr_nil, h, Option.bind_some]

/-- Away from these places the data is kept, unless all of it is missing. -/
theorem Json.nullAround_at? {nearest : Path → Option Path} {paths : List Path} {data : Option Json}
    {path : Path} (away : ∀ given ∈ paths, ∀ place, nearest given = some place →
      ¬ place <+: path ∧ ¬ path <+: place)
    (present : nullAround nearest paths data ≠ none) :
    (nullAround nearest paths data).bind (·.at? path) = data.bind (·.at? path) := by
  induction paths with
  | nil => rfl
  | cons given paths ih =>
    obtain ⟨whole, hwhole⟩ := Option.ne_none_iff_exists'.1 present
    obtain ⟨place, hplace, hrest⟩ := Option.bind_eq_some_iff.1 hwhole
    obtain ⟨kept, hkept, rfl⟩ := Option.map_eq_some_iff.1 hrest
    have inner : nullAround nearest paths data = some kept := hkept
    obtain ⟨notBelow, notAbove⟩ := away given (by simp) place hplace
    have rest := ih (fun other member => away other (by simp [member])) (by simp [inner])
    rw [hwhole, ← rest, inner]
    exact Json.at?_setAt notBelow notAbove kept

/-- The outcomes with which the calls at some paths are given up. -/
def Outcome.abortedAt (outcome : Call → Outcome) (paths : List Path) (call : Call) : Outcome :=
  if call.path ∈ paths then .aborted else outcome call

/-- Where no call is given up the outcomes stay. -/
theorem Outcome.abortedAt_nil (outcome : Call → Outcome) : abortedAt outcome [] = outcome := by
  funext call
  exact if_neg List.not_mem_nil

/-- Giving up the call at one path does not concern calls at others. -/
theorem Outcome.abortedAt_cons_of_ne (outcome : Call → Outcome) {place : Path} {paths : List Path}
    {call : Call} (away : call.path ≠ place) :
    abortedAt outcome (place :: paths) call = abortedAt outcome paths call := by
  simp [abortedAt, away]

namespace Engine

variable {State State' : Type}

/-- Giving up the calls at some paths, each of which is made, takes the nearest places around them
that may be null and the errors at and below them. -/
theorem positions_abortedAt (engine : Engine State) (request : Request) (operation : Operation)
    (rootType : ObjectType) (outcome : Call → Outcome) {paths : List Path}
    (made : ∀ path ∈ paths, ∃ call ∈ (operation.plan engine.schema
      engine.configuration.parallelSiblings request.variableValues rootType).calls
        (Outcome.abortedAt outcome paths), call.path = path) :
    let full := engine.positions request operation rootType outcome
    let cut := engine.positions request operation rootType (Outcome.abortedAt outcome paths)
    cut.complete.value = Json.nullAround full.nearest? paths full.complete.value ∧
      cut.complete.errors = full.complete.errors.filter (fun error =>
        paths.all fun path => !error.isWithin path) ∧
      ∀ path, (∀ given ∈ paths, given <+: path → path = given) →
        cut.nearest? path = full.nearest? path := by
  intro full cut
  induction paths with
  | nil =>
    have same : cut = full := by
      simp only [cut, full, Outcome.abortedAt_nil]
    rw [same]
    refine ⟨rfl, ?_, fun _ _ => rfl⟩
    simp
  | cons place paths ih =>
    have failed : ∀ path ∈ place :: paths,
        ∃ nonNull, cut.at? path = some (.failed nonNull none) := by
      intro path member
      obtain ⟨call, hcall, rfl⟩ := made path member
      obtain ⟨rest, below, hpath, hbelow, given⟩ := Marking.hosts_root engine.schema operation
        request.variableValues _ rootType _ hcall
      obtain ⟨nonNull, rfl⟩ := given (if_pos member)
      exact ⟨nonNull, hpath ▸ hbelow⟩
    have apart : ∀ path ∈ place :: paths, ∀ path' ∈ place :: paths, path <+: path' →
        path' = path := by
      intro path member path' member' on
      obtain ⟨_, here⟩ := failed path member
      obtain ⟨_, there⟩ := failed path' member'
      exact Position.eq_of_isPrefix_failed here there on
    -- with the call at the first path undone, the other ones are given up as before
    let less := engine.positions request operation rootType (Outcome.abortedAt outcome paths)
    have agree : ∀ call : Call, call.path ≠ place →
        Outcome.abortedAt outcome (place :: paths) call = Outcome.abortedAt outcome paths call :=
      fun call => Outcome.abortedAt_cons_of_ne outcome
    have made' : ∀ path ∈ paths, ∃ call ∈ (operation.plan engine.schema
        engine.configuration.parallelSiblings request.variableValues rootType).calls
          (Outcome.abortedAt outcome paths), call.path = path := by
      intro path member
      obtain ⟨call, hcall, rfl⟩ := made path (List.mem_cons_of_mem _ member)
      have notBelow : ¬ place.Below call.path := by
        intro below
        have same := apart place (by simp) call.path (by simp [member]) below.isPrefix
        exact below.ne same
      have filtered := (operation.descends_plan engine.schema
        engine.configuration.parallelSiblings request.variableValues rootType).filter_calls agree
      have kept : call ∈ ((operation.plan engine.schema engine.configuration.parallelSiblings
          request.variableValues rootType).calls (Outcome.abortedAt outcome paths)).filter
            fun call => ¬ place.Below call.path := by
        rw [← filtered, List.mem_filter]
        exact ⟨hcall, decide_eq_true notBelow⟩
      exact ⟨call, List.mem_of_mem_filter kept, rfl⟩
    obtain ⟨value, errors, nearest⟩ := ih made'
    have sameBut : Position.SameBut place [] less cut :=
      positions_sameBut rfl agree request operation rootType
    obtain ⟨_, here⟩ := failed place (by simp)
    obtain ⟨value', errors', nearest'⟩ := sameBut.complete_of_givenUp
      ((engine.wellFormed_positions request operation rootType _).mono fun _ => trivial)
      ((engine.wellFormed_positions request operation rootType _).mono fun _ => trivial) here
    have around : less.nearest? place = full.nearest? place :=
      nearest place fun given member on =>
        apart given (by simp [member]) place (by simp) on
    refine ⟨?_, ?_, ?_⟩
    · rw [value', around, value]
      rfl
    · rw [errors', errors, List.filter_filter]
      simp only [List.all_cons]
    · intro path away
      rw [nearest' path (away place (by simp))]
      exact nearest path fun given member => away given (by simp [member])

/-- A run comes to what its plan is evaluated to by the results and delays of the resolvers, with
the calls given up that were. -/
theorem run_abortedAt (engine : Engine State) {result : Call → Except FieldError Json}
    {delay : Call → Nat} (resolves : engine.registry.Resolves result delay) {plan : Plan}
    (distinct : ∀ answers completion, plan.Yields answers completion →
      (answers.map fun answer => answer.call.path).Nodup)
    (state : State) (cancelAt : Option Nat) :
    let world := (engine.run plan state cancelAt).1
    let outcome := Outcome.abortedAt (engine.settled result delay) world.givenUp
    (engine.run plan state cancelAt).2 = plan.eval outcome ∧
      (∀ path ∈ world.givenUp, ∃ call ∈ plan.calls outcome, call.path = path) ∧
      world.aborted = !world.givenUp.isEmpty := by
  intro world outcome
  obtain ⟨answers, yields, allowed, perm, aborted, -⟩ := engine.run_yields plan state cancelAt
  have ended : ∀ {call : Call}, .ended call .aborted ∈ world.history →
      ∃ answer ∈ answers, answer.call = call ∧ answer.outcome = .aborted :=
    (Answer.ended_mem_iff perm).1
  have agree : ∀ answer ∈ answers, outcome answer.call = answer.outcome := by
    intro answer member
    by_cases given : answer.outcome = .aborted
    · have event := (Answer.ended_mem_iff perm).2 ⟨answer, member, rfl, given⟩
      rw [given]
      exact if_pos (World.mem_givenUp.2 ⟨_, event, rfl⟩)
    · -- no other answer is to a call at the same path
      have kept : answer.call.path ∉ world.givenUp := by
        intro member'
        obtain ⟨call, event, same⟩ := World.mem_givenUp.1 member'
        obtain ⟨other, hother, rfl, given'⟩ := ended event
        have := List.inj_on_of_nodup_map (distinct answers _ yields) hother member same
        exact given (this ▸ given')
      exact (if_neg kept).trans ((allowed answer member).settled resolves given).1.symm
  obtain ⟨heval, hcalls⟩ := yields.eval_eq agree
  refine ⟨heval.symm, ?_, ?_⟩
  · intro path member
    obtain ⟨call, event, rfl⟩ := World.mem_givenUp.1 member
    obtain ⟨answer, hanswer, rfl, -⟩ := ended event
    exact ⟨answer.call, hcalls ▸ List.mem_map_of_mem hanswer, rfl⟩
  · rw [aborted, Bool.eq_iff_iff, Event.any_isAbort_iff, Bool.not_eq_true',
      List.isEmpty_eq_false_iff]
    constructor
    · rintro ⟨call, event⟩
      exact List.ne_nil_of_mem (World.mem_givenUp.2 ⟨call, event, rfl⟩)
    · intro some
      obtain ⟨path, member⟩ := List.exists_mem_of_ne_nil _ some
      obtain ⟨call, event, -⟩ := World.mem_givenUp.1 member
      exact ⟨call, event⟩

/-- The response to an operation is what its positions come to, with the calls given up that
were. -/
theorem execute_abortedAt (engine : Engine State) {result : Call → Except FieldError Json}
    {delay : Call → Nat} (resolves : engine.registry.Resolves result delay) {request : Request}
    (state : State) (cancelAt : Option Nat) {operation : Operation} {rootType : ObjectType}
    (selected : engine.select request = .ok (operation, rootType)) :
    let cut := engine.execute request state cancelAt
    let outcome := Outcome.abortedAt (engine.settled result delay) cut.world.givenUp
    cut.response = respond (engine.positions request operation rootType outcome).complete
        (!cut.world.givenUp.isEmpty) ∧
      ∀ path ∈ cut.world.givenUp, ∃ call ∈ (operation.plan engine.schema
        engine.configuration.parallelSiblings request.variableValues rootType).calls outcome,
          call.path = path := by
  rw [execute_of_select engine state cancelAt selected]
  obtain ⟨completed, made, aborted⟩ := engine.run_abortedAt resolves (fun _ _ yields =>
    operation.nodup_paths_plan engine.schema engine.configuration.parallelSiblings
      request.variableValues rootType yields) state cancelAt
  refine ⟨?_, made⟩
  rw [positions, Marking.complete_root _ _ _ _ _ engine.configuration.parallelSiblings, ← completed,
    ← aborted]

/-- The calls that a run gives up are those with a resolver that had not ended when the operation
was cancelled: those that had started by then, and those that come only later. -/
theorem execute_givenUp (engine : Engine State) {request : Request} (state : State)
    (cancelAt : Option Nat) {operation : Operation} {rootType : ObjectType}
    (selected : engine.select request = .ok (operation, rootType)) {free late : List Turn}
    (between : engine.CancelledBetween (operation.plan engine.schema
      engine.configuration.parallelSiblings request.variableValues rootType) state cancelAt free
      late) (path : Path) :
    let world := (engine.execute request state cancelAt).world
    path ∈ world.givenUp ↔
      ∃ call ∈ engine.calls request operation rootType world.outcome, call.path = path ∧
        (engine.registry.lookup call.typeName call.fieldName).isOk = true ∧
        ∀ outcome, .ended call outcome ∉ free.flatMap (·.events) := by
  intro world
  obtain ⟨ended, due, -⟩ := engine.execute_due state cancelAt selected
  have told : ∀ event, event ∈ world.history ↔
      event ∈ free.flatMap (·.events) ∨ event ∈ late.flatMap (·.events) := by
    intro event
    rw [← between.mem_history, show world = (engine.execute request state cancelAt).world from rfl,
      execute_of_select engine state cancelAt selected]
  rw [World.mem_givenUp]
  constructor
  · rintro ⟨call, given, rfl⟩
    obtain ⟨made, outcome⟩ := (ended call _).1 given
    refine ⟨call, made, rfl, (due call _ given).isOk_lookup_iff.2 (by simp), fun other early => ?_⟩
    -- the call ended only once
    have same := ((ended call other).1 ((told _).2 (.inl early))).2
    exact between.not_given_up early (same.symm.trans outcome)
  · rintro ⟨call, made, rfl, bound, waiting⟩
    have happened := (ended call _).2 ⟨made, rfl⟩
    have later := ((told _).1 happened).resolve_left (waiting _)
    have given := between.given_up later ((due call _ happened).isOk_lookup_iff.1 bound)
    exact ⟨call, given ▸ happened, rfl⟩

/-- The response of the cancelled run, computed from that of the other one. -/
theorem response_cancelled {engine : Engine State} {calm : Engine State'}
    (alike : calm.Alike engine) {result : Call → Except FieldError Json} {delay : Call → Nat}
    (resolves : engine.registry.Resolves result delay)
    (resolves' : calm.registry.Resolves result delay) (request : Request) (state : State)
    (state' : State') (cancelAt cancelAt' : Option Nat)
    (uncancelled : (calm.execute request state' cancelAt').world.cancelled = false) :
    let cut := engine.execute request state cancelAt
    let full := calm.execute request state' cancelAt'
    cut.response = { full.response with
      data := Json.nullAround (calm.nearest? request (calm.settled result delay)) cut.world.givenUp
        full.response.data
      errors := full.response.errors.filter (fun error =>
          cut.world.givenUp.all fun path => !error.isWithin path) ++
        if cut.world.givenUp.isEmpty then [] else
          [Reportable.report none ExecutionError.cancelled] } := by
  intro cut full
  cases selected : calm.select request with
  | error cause =>
    have selected' := (alike.select_eq request).trans selected
    have rejected : cut = { response := full.response, world := { state } } := by
      simp only [cut, full, execute, selected', selected]
    rw [rejected]
    simp [World.givenUp, Json.nullAround]
  | ok chosen =>
    obtain ⟨operation, rootType⟩ := chosen
    have selected' := (alike.select_eq request).trans selected
    obtain ⟨response, made⟩ := engine.execute_abortedAt resolves state cancelAt selected'
    obtain ⟨value, errors, -⟩ := engine.positions_abortedAt request operation rootType _ made
    rw [alike.settled_eq, alike.positions_eq, alike.positions_eq] at value errors
    rw [alike.settled_eq, alike.positions_eq] at response
    have uncut : full.response = _ :=
      (calm.execute_settled resolves' state' cancelAt' selected uncancelled).1
    rw [nearest?_of_select selected, uncut]
    simp only [respond, Bool.false_eq_true, if_false, List.append_nil]
    rw [← value, ← errors]
    refine response.trans ?_
    cases cut.world.givenUp.isEmpty <;> rfl

/-- Cancellation is exact. Of the response to the same request without a cancellation, the nearest
places around the calls that were given up become null, the errors at and below these calls are
missing, and an error of the cancellation comes last. All else is the same; so it is the same
response if no call was given up. The calls that were given up are those with a resolver that did
not end before the cancellation: they were waiting then, or were reached after it. -/
theorem execute_cancelled {engine : Engine State} {calm : Engine State'} (alike : calm.Alike engine)
    {result : Call → Except FieldError Json} {delay : Call → Nat}
    (resolves : engine.registry.Resolves result delay)
    (resolves' : calm.registry.Resolves result delay) (request : Request) (state : State)
    (state' : State') (cancelAt cancelAt' : Option Nat)
    (uncancelled : (calm.execute request state' cancelAt').world.cancelled = false) :
    let cut := engine.execute request state cancelAt
    let full := calm.execute request state' cancelAt'
    let nearest := calm.nearest? request (calm.settled result delay)
    cut.response = { full.response with
        data := Json.nullAround nearest cut.world.givenUp full.response.data
        errors := full.response.errors.filter (fun error =>
            cut.world.givenUp.all fun path => !error.isWithin path) ++
          if cut.world.givenUp.isEmpty then [] else
            [Reportable.report none ExecutionError.cancelled] } ∧
      (cut.response.data ≠ none → ∀ path,
        (∀ given ∈ cut.world.givenUp, ∀ place, nearest given = some place →
          ¬ place <+: path ∧ ¬ path <+: place) →
        (cut.response.data.bind fun data => data.at? path) =
          full.response.data.bind fun data => data.at? path) ∧
      (cut.world.givenUp = [] → cut.response = full.response) ∧
      ∀ operation rootType, engine.select request = .ok (operation, rootType) →
        ∃ free late, engine.CancelledBetween (operation.plan engine.schema
            engine.configuration.parallelSiblings request.variableValues rootType) state cancelAt
            free late ∧
          ∀ path, path ∈ cut.world.givenUp ↔
            ∃ call ∈ engine.calls request operation rootType cut.world.outcome, call.path = path ∧
              (engine.registry.lookup call.typeName call.fieldName).isOk = true ∧
              ∀ outcome, .ended call outcome ∉ free.flatMap (·.events) := by
  intro cut full nearest
  have exact : cut.response = _ := response_cancelled alike resolves resolves' request state state'
    cancelAt cancelAt' uncancelled
  refine ⟨exact, ?_, ?_, ?_⟩
  · intro present path away
    have data := congrArg Response.data exact
    rw [data] at present ⊢
    exact Json.nullAround_at? away present
  · intro none
    have uncut : engine.execute request state cancelAt = cut := rfl
    rw [exact, uncut, none]
    simp [Json.nullAround, full]
  · intro operation rootType selected
    obtain ⟨free, late, between⟩ := engine.exists_cancelledBetween (operation.plan engine.schema
      engine.configuration.parallelSiblings request.variableValues rootType) state cancelAt
    exact ⟨free, late, between, engine.execute_givenUp state cancelAt selected between⟩

/-- The field that is still waited for becomes null, its sibling stays; and if the operation was
cancelled before it began, all calls are given up. -/
theorem execute_cancelled_lapsing :
    let engine := lapsing (.wait 5 (.done (.ok (.ofInt 7))))
    let request : Request := { query := some "{lenient other: lenient}" }
    (engine.execute request () (some 2)).response.data =
        (engine.execute request () none).response.data.map (Json.setAt .null [.key "lenient"]) ∧
      ∃ operation rootType, engine.select request = .ok (operation, rootType) ∧
        ∀ call ∈ engine.calls request operation rootType
            (engine.execute request () (some 0)).world.outcome,
          (engine.registry.lookup call.typeName call.fieldName).isOk = true →
            call.path ∈ (engine.execute request () (some 0)).world.givenUp := by
  intro engine request
  have takes : (Action.wait 5 (.done (.ok (.ofInt 7))) : Action Unit).Takes (.ok (.ofInt 7)) 5 :=
    .wait .done
  have alike : engine.Alike engine := ⟨rfl, rfl, fun _ _ => rfl⟩
  have uncancelled : (engine.execute request () none).world.cancelled = false := by decide +kernel
  have cancelled := fun cancelAt => execute_cancelled alike (resolves_lapsing takes)
    (resolves_lapsing takes) request () () cancelAt none uncancelled
  constructor
  · obtain ⟨exact, -⟩ := cancelled (some 2)
    have given : (engine.execute request () (some 2)).world.givenUp = [[.key "lenient"]] := by
      decide +kernel
    rw [exact, given]
    dsimp only
    rw [Json.nullAround_singleton]
    decide +kernel
  · obtain ⟨operation, rootType, selected⟩ :
        ∃ operation rootType, engine.select request = .ok (operation, rootType) :=
      exists_selected (by decide +kernel)
    obtain ⟨-, -, -, which⟩ := cancelled (some 0)
    obtain ⟨free, late, between, given⟩ := which operation rootType selected
    have noneFree : free = [] := by
      refine List.eq_nil_iff_forall_not_mem.2 fun turn member => ?_
      have already := between.timely 0 rfl turn (List.mem_append_left _ member) (Nat.zero_le _)
      exact absurd already (ne_true_of_eq_false (between.before turn member))
    refine ⟨operation, rootType, selected, fun call made bound => ?_⟩
    exact (given call.path).2 ⟨call, made, rfl, bound, by simp [noneFree]⟩

end Engine

end GraphQL
