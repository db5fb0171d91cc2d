import GraphQL.Proofs.Jobs.Groupings
import GraphQL.Proofs.Jobs.Endings
import GraphQL.Proofs.Jobs.Schedules
import GraphQL.Proofs.Positions.Divergence
import Mathlib.Algebra.Ring.Nat
import Mathlib.Data.List.Perm.Basic

/-!
# The time that an operation takes

Where resolvers take a time for each call that does not depend on the shared state, a plan takes the
sum of the times of its parts where they run one after the other, and the longest of them where they
run side by side (`Plan.start_lasts`). Run in order all calls add up. Run side by side it is only
the calls on the way to one of them that do, so that the operation takes as long as the costliest
chain of nested calls (`criticalPath`). `Engine.execute_now` reads both off the calls of a run.
-/

set_option autoImplicit false

namespace GraphQL

/-- The longest of some times; none if there are none. -/
def longest (spans : List Nat) : Nat :=
  spans.foldr max 0

/-- The longest of the times in two lists is the longest of one of them. -/
theorem longest_append (first second : List Nat) :
    longest (first ++ second) = max (longest first) (longest second) := by
  induction first with
  | nil => exact (Nat.zero_max _).symm
  | cons span rest ih => exact (congrArg (max span) ih).trans (Nat.max_assoc _ _ _).symm

/-- The longest time does not depend on the order. -/
theorem longest_perm {first second : List Nat} (perm : first.Perm second) :
    longest first = longest second := by
  have commutes : LeftCommutative (max : Nat → Nat → Nat) := ⟨Nat.max_left_comm⟩
  exact perm.foldr_eq 0

/-- What is added to each of some times, and is a time of its own, is added to the longest. -/
theorem max_longest_map_add {α : Type} (span : Nat) (f : α → Nat) (items : List α) :
    max span (longest (items.map fun item => span + f item)) = span + longest (items.map f) := by
  induction items with
  | nil => exact Nat.max_eq_left (Nat.zero_le _)
  | cons item rest ih =>
    have step : ∀ spans : List Nat, ∀ first, longest (first :: spans) = max first (longest spans) :=
      fun _ _ => rfl
    simp only [List.map_cons, step]
    omega

/-- The costs of a call and of the calls on the way to it add up. -/
def chainCost (cost : Call → Nat) (calls : List Call) (call : Call) : Nat :=
  ((calls.filter fun above => above.path <+: call.path).map cost).sum

/-- The cost of the costliest chain of calls, each nested in the one before. -/
def criticalPath (cost : Call → Nat) (calls : List Call) : Nat :=
  longest (calls.map (chainCost cost calls))

section

variable {cost : Call → Nat}

/-- The critical path does not depend on the order in which calls are listed. -/
theorem criticalPath_perm {calls calls' : List Call} (perm : calls.Perm calls') :
    criticalPath cost calls = criticalPath cost calls' := by
  have chains : chainCost cost calls = chainCost cost calls' :=
    funext fun call => ((perm.filter _).map cost).sum_nat
  rw [criticalPath, criticalPath, chains]
  exact longest_perm (perm.map _)

/-- A call with others nested in it costs its own on top. -/
theorem criticalPath_cons {call : Call} {nested : List Call}
    (below : ∀ other ∈ nested, call.path.Below other.path) :
    criticalPath cost (call :: nested) = cost call + criticalPath cost nested := by
  have own : chainCost cost (call :: nested) call = cost call := by
    have none : nested.filter (fun above => above.path <+: call.path) = [] := by
      refine List.filter_eq_nil_iff.2 fun other member => ?_
      have different := (below other member).ne
      have prefixed := (below other member).isPrefix
      simpa using fun above => different (above.eq_of_length_le prefixed.length_le)
    simp [chainCost, none]
  have through : ∀ other ∈ nested,
      chainCost cost (call :: nested) other = cost call + chainCost cost nested other := by
    intro other member
    have above := (below other member).isPrefix
    simp [chainCost, above]
  rw [criticalPath, List.map_cons, own, List.map_congr_left through]
  exact max_longest_map_add _ _ _

/-- No chain of calls leads through two parts, if no call of one part is nested in one of the
other. -/
theorem criticalPath_append {first second : List Call}
    (apart : ∀ call ∈ first, ∀ other ∈ second,
      ¬ call.path <+: other.path ∧ ¬ other.path <+: call.path) :
    criticalPath cost (first ++ second) =
      max (criticalPath cost first) (criticalPath cost second) := by
  have left : ∀ call ∈ first, chainCost cost (first ++ second) call = chainCost cost first call := by
    intro call member
    have none : second.filter (fun above => above.path <+: call.path) = [] :=
      List.filter_eq_nil_iff.2 fun other hother => by simpa using (apart call member other hother).2
    simp [chainCost, none]
  have right : ∀ call ∈ second,
      chainCost cost (first ++ second) call = chainCost cost second call := by
    intro call member
    have none : first.filter (fun above => above.path <+: call.path) = [] :=
      List.filter_eq_nil_iff.2 fun other hother => by simpa using (apart other hother call member).1
    simp [chainCost, none]
  rw [criticalPath, List.map_append, List.map_congr_left left, List.map_congr_left right,
    longest_append]
  rfl

end

namespace Registry

variable {State : Type}

/-- What a call costs if its field has a resolver. -/
def charge (registry : Registry State) (cost : Call → Nat) (call : Call) : Nat :=
  if (registry.lookup call.typeName call.fieldName).isOk then cost call else 0

/-- A call takes as long as its resolver, and no longer than the time limit. -/
theorem Resolves.perform {registry : Registry State} {result : Call → Except FieldError Json}
    {delay : Call → Nat} (resolves : registry.Resolves result delay) (timeout : Option Duration)
    (call : Call) : (registry.perform timeout call).Lasts
      (registry.charge (fun call => Outcome.timeWithin timeout (delay call)) call)
      (registry.settled timeout result delay call) := by
  intro world
  unfold Registry.perform charge settled
  cases bound : registry.lookup call.typeName call.fieldName with
  | error cause => exact Action.settle_ends call (.unbound cause) (Nat.le_refl _)
  | ok binding =>
    by_cases given : world.cancelled = true
    · simp only [if_pos given]
      exact Action.abort_ends call given _ _
    · simp only [if_neg given]
      have follows : world.Follows (world.record (.started call)) := ⟨rfl, id⟩
      have ends := (resolves call binding bound).run call
        (timeout.map fun span => .after span world.now) (world.record (.started call)) fun limit h => by
          obtain ⟨span, -, rfl⟩ := Option.map_eq_some_iff.1 h
          exact Nat.le_add_right _ _
      have now : (world.record (.started call)).now = world.now := rfl
      rw [now, Outcome.endBy_after, Outcome.byDeadline_after] at ends
      exact .of_follows follows ends

end Registry

namespace Plan

variable {State : Type}

mutual

/-- The time that a plan takes where each call has a cost and an outcome. -/
def span (cost : Call → Nat) (outcome : Call → Outcome) : Plan → Nat
  | done _ => 0
  | call c next => cost c + (next (outcome c)).span cost outcome
  | group serial parts _ =>
    if serial then (spans cost outcome parts).sum else longest (spans cost outcome parts)

/-- The times that plans take. -/
def spans (cost : Call → Nat) (outcome : Call → Outcome) : List Plan → List Nat
  | [] => []
  | plan :: rest => plan.span cost outcome :: spans cost outcome rest

end

variable {cost : Call → Nat} {outcome : Call → Outcome}

/-- The spans of plans are those of each. -/
theorem spans_eq_map (plans : List Plan) :
    spans cost outcome plans = plans.map (·.span cost outcome) := by
  induction plans with
  | nil => rfl
  | cons plan rest ih => rw [spans, ih, List.map_cons]

/-- Running a plan takes its time, and comes to what the plan is evaluated to. -/
theorem start_lasts {perform : Call → Job State Outcome}
    (hperform : ∀ call, (perform call).Lasts (cost call) (outcome call)) (plan : Plan) :
    (plan.start perform).Lasts (plan.span cost outcome) (plan.eval outcome) := by
  induction plan using Plan.induction with
  | done completion => exact Job.lasts_pure completion
  | call call next ih => exact (hperform call).bind ih
  | group serial parts finish ih =>
    rw [start, span, eval, startAll_eq_map, spans_eq_map, evalAll_eq_map]
    split
    · refine Job.Lasts.map finish ?_
      induction parts with
      | nil => exact Job.lasts_pure []
      | cons part rest ihRest =>
        obtain ⟨first, others⟩ := List.forall_mem_cons.1 ih
        exact first.inOrder_cons (ihRest others)
    · refine Job.Lasts.map finish ?_
      induction parts with
      | nil => exact Job.lasts_pure []
      | cons part rest ihRest =>
        obtain ⟨first, others⟩ := List.forall_mem_cons.1 ih
        exact first.together_cons (ihRest others)

/-- With all of its groups in order a plan takes as long as its calls together. -/
theorem span_regroup_true (plan : Plan) :
    (plan.regroup true).span cost outcome = ((plan.calls outcome).map cost).sum := by
  induction plan using Plan.induction with
  | done completion => rfl
  | call call next ih => rw [regroup, span, calls, List.map_cons, List.sum_cons, ih]
  | group own parts finish ih =>
    rw [regroup, span, if_pos rfl, spans_eq_map, regroupAll_eq_map, calls, callsAll_eq_flatMap,
      List.map_map]
    induction parts with
    | nil => rfl
    | cons part rest ihRest =>
      obtain ⟨first, others⟩ := List.forall_mem_cons.1 ih
      rw [List.map_cons, List.sum_cons, ihRest others, List.flatMap_cons, List.map_append,
        List.sum_append]
      exact congrArg (· + _) first

/-- The calls that have a resolver, of which alone a run is made up. -/
theorem sum_charge (registry : Registry State) (cost : Call → Nat) (calls : List Call) :
    (calls.map (registry.charge cost)).sum = ((calls.filter fun call =>
      (registry.lookup call.typeName call.fieldName).isOk).map cost).sum := by
  induction calls with
  | nil => rfl
  | cons call rest ih =>
    rw [List.map_cons, List.sum_cons, ih, List.filter_cons, Registry.charge]
    split
    · rw [List.map_cons, List.sum_cons]
    · exact Nat.zero_add _

/-- With all of its groups side by side a plan takes as long as the costliest chain of its calls. -/
theorem Descends.span_regroup_false {own : Bool} {base : Path} {plan : Plan}
    (h : plan.Descends own base) (registry : Registry State) (cost : Call → Nat)
    (outcome : Call → Outcome) :
    (plan.regroup false).span (registry.charge cost) outcome =
      criticalPath cost ((plan.calls outcome).filter fun call =>
        (registry.lookup call.typeName call.fieldName).isOk) := by
  induction h with
  | done => rfl
  | @call base call next place h ih =>
    rw [regroup, span, calls, ih, List.filter_cons, Registry.charge]
    split
    · refine (criticalPath_cons fun other member => ?_).symm
      exact place ▸ (h _).mem_calls (List.mem_of_mem_filter member)
    · exact Nat.zero_add _
  | @group own base serial parts finish steps distinct length each ih =>
    rw [regroup, span, if_neg Bool.false_ne_true, spans_eq_map, regroupAll_eq_map, calls,
      callsAll_eq_flatMap, List.map_map]
    induction parts generalizing steps with
    | nil => rfl
    | cons part rest ihRest =>
      obtain ⟨step, steps, rfl⟩ := List.exists_cons_of_length_eq_add_one length
      have fresh := List.nodup_cons.1 distinct
      have others := ihRest steps fresh.2 (Nat.succ.inj length)
        (fun i => each (i + 1)) fun i => ih (i + 1)
      rw [List.flatMap_cons, List.filter_append, criticalPath_append, ← others,
        ← ih 0 step part rfl rfl]
      · rfl
      · -- a call on the way to one in another part would take two steps from the base
        intro call member other hother
        have on := (each 0 step part rfl rfl).mem_calls (List.mem_of_mem_filter member)
        obtain ⟨part', hpart', hother⟩ := List.mem_flatMap.1 (List.mem_of_mem_filter hother)
        obtain ⟨i, hi, rfl⟩ := List.getElem_of_mem hpart'
        have hs : i < steps.length := Nat.succ.inj length ▸ hi
        have on' := (each (i + 1) steps[i] rest[i] (List.getElem?_eq_getElem hs)
          (List.getElem?_eq_getElem hi)).mem_calls hother
        have different : step ≠ steps[i] := by
          rintro rfl
          exact fresh.1 (List.getElem_mem hs)
        exact ⟨fun above => different (Path.step_eq_of_isPrefix (on.trans above) on'),
          fun above => different (Path.step_eq_of_isPrefix on (on'.trans above))⟩

end Plan

namespace ExecutionScope

/-- Where siblings run side by side, so do all parts of what a root field does. -/
theorem regroup_entry {scope : ExecutionScope} (parallel : scope.parallel = true)
    (rootType : ObjectType) (group : FieldGroup) :
    (scope.entry rootType group).regroup false = scope.entry rootType group := by
  have same := scope.arranged_of_eq parallel
  rw [entry, regroup_fieldPlan, same]
  simp only [regroup_selectionPlan, same, parallel, Bool.not_true]

/-- The calls of root fields at and below the key of one are those of that one. -/
theorem filter_calls_entries {scope : ExecutionScope} {rootType : ObjectType}
    {outcome : Call → Outcome} {groups : List FieldGroup} (distinct : (groups.map (·.key)).Nodup)
    {group : FieldGroup} (member : group ∈ groups) :
    (groups.flatMap fun group => (scope.entry rootType group).calls outcome).filter
        (fun call => [.key group.key] <+: call.path) =
      (scope.entry rootType group).calls outcome := by
  have under : ∀ group, ∀ call ∈ (scope.entry rootType group).calls outcome,
      [.key group.key] <+: call.path := fun group call hcall =>
    (descends_entry rootType group).mem_calls hcall
  have own : ((scope.entry rootType group).calls outcome).filter
      (fun call => [.key group.key] <+: call.path) = (scope.entry rootType group).calls outcome :=
    List.filter_eq_self.2 fun call hcall => decide_eq_true (under group call hcall)
  have foreign : ∀ others : List FieldGroup, (∀ other ∈ others, other.key ≠ group.key) →
      (others.flatMap fun other => (scope.entry rootType other).calls outcome).filter
        (fun call => [.key group.key] <+: call.path) = [] := by
    intro others different
    refine List.filter_eq_nil_iff.2 fun call hcall => ?_
    obtain ⟨other, hother, hcall⟩ := List.mem_flatMap.1 hcall
    rw [decide_eq_true_eq]
    intro on
    have from_root : Path.join [] (.key group.key) <+: call.path := on
    have same := Path.step_eq_of_isPrefix from_root (under other call hcall)
    exact different other hother (PathElement.key.inj same).symm
  obtain ⟨before, after, rfl⟩ := List.append_of_mem member
  rw [List.map_append, List.map_cons, List.nodup_append] at distinct
  obtain ⟨-, afterDistinct, apart⟩ := distinct
  have fresh := (List.nodup_cons.1 afterDistinct).1
  rw [List.flatMap_append, List.flatMap_cons, List.filter_append, List.filter_append, own,
    foreign before, foreign after, List.append_nil, List.nil_append]
  · intro other hother same
    exact fresh (List.mem_map.2 ⟨other, hother, same⟩)
  · intro other hother
    exact apart _ (List.mem_map.2 ⟨other, hother, rfl⟩) _ List.mem_cons_self

/-- One after the other, root fields whose parts run side by side take the sum of the costliest
chains of calls at and below each of them. -/
theorem span_entries {scope : ExecutionScope} (parallel : scope.parallel = true) {State : Type}
    (registry : Registry State) (cost : Call → Nat) {outcome : Call → Outcome}
    {rootType : ObjectType} {groups : List FieldGroup} (distinct : (groups.map (·.key)).Nodup)
    (finish : List Completion → Completion) {calls : List Call}
    (perm : calls.Perm (((Plan.group true (groups.map (scope.entry rootType)) finish).calls
      outcome).filter fun call => (registry.lookup call.typeName call.fieldName).isOk)) :
    (Plan.group true (groups.map (scope.entry rootType)) finish).span (registry.charge cost)
        outcome =
      (groups.map fun entry =>
        criticalPath cost (calls.filter fun call => [.key entry.key] <+: call.path)).sum := by
  rw [Plan.calls, Plan.callsAll_eq_flatMap, List.flatMap_map] at perm
  rw [Plan.span, if_pos rfl, Plan.spans_eq_map, List.map_map]
  congr 1
  refine List.map_congr_left fun group member => ?_
  have descends : (scope.entry rootType group).Descends true [.key group.key] :=
    descends_entry rootType group
  have own := perm.filter fun call => [.key group.key] <+: call.path
  rw [List.filter_comm, filter_calls_entries distinct member] at own
  rw [Function.comp_apply, ← regroup_entry parallel, descends.span_regroup_false]
  exact (criticalPath_perm own).symm

end ExecutionScope

/-- Where siblings run side by side, so do all parts of what an operation other than a mutation
does. -/
theorem Operation.regroup_query {operation : Operation} (query : operation.kind ≠ .mutation)
    (schema : Schema) (values : Json.Object) (rootType : ObjectType) :
    (operation.plan schema true values rootType).regroup false =
      operation.plan schema true values rootType := by
  have together : (operation.kind == .mutation || !true) = false := by simpa using query
  rw [plan, together, ExecutionScope.regroup_selectionPlan, ExecutionScope.arranged_of_eq]
  rfl

namespace Engine

variable {State : Type}

/-- What a call costs whose resolver takes some time: that time, cut to the time limit. -/
def cost (engine : Engine State) (delay : Call → Nat) (call : Call) : Nat :=
  Outcome.timeWithin engine.configuration.resolverTimeout (delay call)

/-- The clock of a run that is not cancelled shows the time that its plan takes. -/
theorem run_now (engine : Engine State) {result : Call → Except FieldError Json}
    {delay : Call → Nat} (resolves : engine.registry.Resolves result delay) (plan : Plan)
    (state : State) (cancelAt : Option Nat)
    (uncancelled : (engine.run plan state cancelAt).1.cancelled = false) :
    (engine.run plan state cancelAt).1.now =
      plan.span (engine.registry.charge (engine.cost delay)) (engine.settled result delay) := by
  have lasts := plan.start_lasts fun call =>
    resolves.perform engine.configuration.resolverTimeout call
  obtain ⟨follows, ends⟩ := lasts { state, cancelled := cancelAt == some 0 }
  obtain ⟨-, atEnd⟩ := ends.finish (fun _ => follows.now ▸ Nat.le_add_right _ _) cancelAt
  exact (atEnd uncancelled).1.trans (Nat.zero_add _)

/-- The time that the operation takes: where siblings run one after the other the costs of all
calls add up, and where they run side by side it is the cost of the costliest chain of nested calls.
The root fields of a mutation run one after the other also then. -/
theorem execute_now (engine : Engine State) {result : Call → Except FieldError Json}
    {delay : Call → Nat} (resolves : engine.registry.Resolves result delay) {request : Request}
    (state : State) (cancelAt : Option Nat) {operation : Operation} {rootType : ObjectType}
    (selected : engine.select request = .ok (operation, rootType))
    (uncancelled : (engine.execute request state cancelAt).world.cancelled = false) :
    let world := (engine.execute request state cancelAt).world
    world.now =
      if engine.configuration.parallelSiblings = true then
        if operation.kind = .mutation then
          ((collectFields rootType.name operation.selections).map fun entry =>
            criticalPath (engine.cost delay)
              (world.calls.filter fun call => [.key entry.key] <+: call.path)).sum
        else criticalPath (engine.cost delay) world.calls
      else (world.calls.map (engine.cost delay)).sum := by
  intro world
  have ran : world = (engine.run (operation.plan engine.schema engine.configuration.parallelSiblings
      request.variableValues rootType) state cancelAt).1 :=
    congrArg Execution.world (execute_of_select engine state cancelAt selected)
  have live : world.cancelled = false := uncancelled
  -- the calls of a run that is not cancelled, and what its clock shows, are those of its plan
  have timed : ∀ plan, world = (engine.run plan state cancelAt).1 →
      world.now = plan.span (engine.registry.charge (engine.cost delay))
        (engine.settled result delay) ∧
      world.calls.Perm ((plan.calls (engine.settled result delay)).filter fun call =>
        (engine.registry.lookup call.typeName call.fieldName).isOk) := by
    intro plan hworld
    rw [hworld] at live ⊢
    exact ⟨engine.run_now resolves plan state cancelAt live,
      engine.run_calls resolves plan state cancelAt live⟩
  cases parallel : engine.configuration.parallelSiblings with
  | false =>
    rw [parallel, ← operation.regroup_plan engine.schema false] at ran
    obtain ⟨now, calls⟩ := timed _ ran
    rw [Plan.calls_regroup] at calls
    rw [if_neg Bool.false_ne_true, now, Plan.span_regroup_true, Plan.sum_charge]
    exact (calls.map _).sum_nat.symm
  | true =>
    rw [if_pos rfl]
    by_cases mutation : operation.kind = .mutation
    · rw [if_pos mutation]
      let scope : ExecutionScope :=
        { schema := engine.schema
          vars := { definitions := operation.variableDefinitions, values := request.variableValues }
          parallel := engine.configuration.parallelSiblings }
      let groups := collectFields rootType.name operation.selections
      have grouped : world = (engine.run (.group true (groups.map (scope.entry rootType))
          (.ofFields (groups.map (·.key)))) state cancelAt).1 := by
        rw [ran, run, Operation.start_mutation mutation]
        rfl
      obtain ⟨now, calls⟩ := timed _ grouped
      rw [now]
      exact ExecutionScope.span_entries parallel _ _ (nodup_keys_collectFields _ _) _ calls
    · rw [if_neg mutation]
      rw [parallel, ← Operation.regroup_query mutation] at ran
      obtain ⟨now, calls⟩ := timed _ ran
      rw [now, (operation.descends_plan _ _ _ _).span_regroup_false, criticalPath_perm calls,
        Plan.calls_regroup]

/-- The resolvers of an engine that takes 5 milliseconds for an object and 7 for a number. -/
def branchingResolver : Resolver Unit := fun call =>
  if call.fieldName = "deeper" then .wait 5 (.done (.ok (.object [])))
  else .wait 7 (.done (.ok (.ofInt 7)))

/-- An engine with an object in which the same fields are again. -/
def branching (configuration : Configuration) : Engine Unit where
  schema :=
    { types := [.object
        { name := "Query"
          fields := [{ name := "deeper", type := .named "Query", arguments := [] },
            { name := "leaf", type := .builtin .int, arguments := [] }] }]
      queryRoot := "Query"
      mutationRoot := none }
  registry :=
    { bindings :=
        [{ typeName := "Query", fieldName := "deeper", resolver := branchingResolver },
          { typeName := "Query", fieldName := "leaf", resolver := branchingResolver }] }
  configuration

/-- The time that the resolver of a call takes there. -/
def branchingDelay (call : Call) : Nat :=
  if call.fieldName = "deeper" then 5 else 7

/-- Under a time limit of 6 milliseconds the number in the object is there after 5 + 6 of them. -/
theorem execute_now_branching :
    let engine := branching { resolverTimeout := some ⟨6000000⟩ }
    let request : Request := { query := some "{deeper {leaf} leaf}" }
    let world := (engine.execute request () none).world
    world.now = 11 ∧ world.now = criticalPath (engine.cost branchingDelay) world.calls := by
  intro engine request world
  have resolves : engine.registry.Resolves
      (fun call => .ok (if call.fieldName = "deeper" then .object [] else .ofInt 7))
      branchingDelay := by
    refine .of_bindings fun binding member call _ => ?_
    have resolver : binding.resolver = branchingResolver := by
      simp only [engine, branching, List.mem_cons, List.not_mem_nil, or_false] at member
      rcases member with rfl | rfl <;> rfl
    rw [resolver, branchingResolver, branchingDelay]
    split
    · exact .wait .done
    · exact .wait .done
  have accepted : (engine.select request).toOption.any (fun chosen => chosen.1.kind != .mutation) =
      true := by decide +kernel
  obtain ⟨operation, rootType, selected⟩ :
      ∃ operation rootType, engine.select request = .ok (operation, rootType) :=
    exists_selected (by decide +kernel)
  have query : operation.kind ≠ .mutation := by
    rw [selected] at accepted
    exact bne_iff_ne.1 accepted
  refine ⟨by decide +kernel, ?_⟩
  exact (engine.execute_now resolves () none selected (by decide +kernel)).trans (if_neg query)

/-- The clock ticks in milliseconds: with a limit of 1.5 of them two calls that exceed it, one after
the other, take 4 of them and not 3. -/
theorem now_ne_sum_of_limits :
    let engine := branching { parallelSiblings := false, resolverTimeout := some ⟨1500000⟩ }
    let world := (engine.execute { query := some "{leaf again: leaf}" } () none).world
    world.cancelled = false ∧ world.now * 1000000 ≠
      (world.calls.map fun call => min (branchingDelay call * 1000000) 1500000).sum := by
  decide +kernel

end Engine

end GraphQL
