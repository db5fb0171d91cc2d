import GraphQL.Proofs.Jobs.Answers
import Mathlib.Data.List.Nodup

/-!
# The outcomes of a run

The history of a run tells what became of each call. Where no call is made twice, the plan that was
run is evaluated by these outcomes to what the run came to (`Engine.run_eval`): whatever the jobs
did to each other, and in whatever order their calls ended, the result is that of the plan, read
with the outcome of every call known beforehand. These outcomes are not the history's own: each is
due to the resolver of its call, the time limit or the cancellation (`Engine.run_due`).
-/

set_option autoImplicit false

namespace GraphQL

namespace Plan

/-- A plan that yields something for some answers is evaluated to it, and makes the calls that are
answered, under all outcomes that agree with the answers. -/
theorem Yields.eval_eq {outcome : Call → Outcome} {plan : Plan} {answers : List Answer}
    {completion : Completion} (h : plan.Yields answers completion)
    (agree : ∀ answer ∈ answers, outcome answer.call = answer.outcome) :
    plan.eval outcome = completion ∧ plan.calls outcome = answers.map (·.call) := by
  induction plan using Plan.induction generalizing answers completion with
  | done own =>
    cases h
    exact ⟨rfl, rfl⟩
  | call call next ih =>
    cases h with
    | @call _ _ given made answers _ later =>
      have same : outcome call = given := agree ⟨call, given, made⟩ (by simp)
      obtain ⟨heval, hcalls⟩ := ih given later fun answer member =>
        agree answer (List.mem_cons_of_mem _ member)
      rw [eval, calls, same, heval, hcalls]
      exact ⟨rfl, rfl⟩
  | group serial parts finish ih =>
    cases h with
    | group each =>
      suffices evalAll outcome parts = _ ∧ callsAll outcome parts = _ from
        ⟨congrArg finish this.1, this.2⟩
      induction each with
      | nil => exact ⟨rfl, rfl⟩
      | @cons part result rest results first _ ihRest =>
        have heads : ∀ answer ∈ result.1, outcome answer.call = answer.outcome :=
          fun answer member => agree answer (List.mem_append_left _ member)
        have tails : ∀ answer ∈ results.flatMap Prod.fst, outcome answer.call = answer.outcome :=
          fun answer member => agree answer (List.mem_append_right _ member)
        obtain ⟨heval, hcalls⟩ := ih part (by simp) first heads
        obtain ⟨hevals, hcallsAll⟩ := ihRest (fun part member => ih part (by simp [member])) tails
        rw [evalAll, callsAll, heval, hcalls, hevals, hcallsAll, List.flatMap_cons, List.map_append]
        exact ⟨rfl, rfl⟩

/-- A plan is evaluated alike by outcomes that agree on the calls that it makes. -/
theorem eval_congr {first second : Call → Outcome} {plan : Plan}
    (agree : ∀ call ∈ plan.calls first, first call = second call) :
    plan.eval first = plan.eval second := by
  induction plan using Plan.induction with
  | done completion => rfl
  | call call next ih =>
    have same : first call = second call := agree call (by simp [calls])
    rw [eval, eval, ← same]
    refine ih _ fun other member => agree other ?_
    rw [calls]
    exact List.mem_cons_of_mem _ member
  | group serial parts finish ih =>
    rw [eval, eval, evalAll_eq_map, evalAll_eq_map]
    congr 1
    apply List.map_congr_left
    intro part member
    refine ih part member fun call hcall => agree call ?_
    rw [calls, callsAll_eq_flatMap]
    exact List.mem_flatMap.2 ⟨part, member, hcall⟩

end Plan

namespace World

variable {State : Type}

/-- What became of a call, by the first end of the call that the history tells of. -/
def outcome (world : World State) (call : Call) : Outcome :=
  (world.history.findSome? fun
    | .ended other outcome => if other = call then some outcome else none
    | .started _ => none).getD (.value .null)

/-- A call that ended only once has the outcome with which it did. -/
theorem outcome_eq {world : World State} {call : Call} {outcome : Outcome}
    (ended : .ended call outcome ∈ world.history)
    (once : ∀ other, .ended call other ∈ world.history → other = outcome) :
    world.outcome call = outcome := by
  unfold World.outcome
  cases hfind : world.history.findSome? _ with
  | none =>
    have := List.findSome?_eq_none_iff.1 hfind _ ended
    simp at this
  | some other =>
    obtain ⟨event, member, hevent⟩ := List.exists_of_findSome?_eq_some hfind
    cases event with
    | started call => cases hevent
    | ended call' outcome' =>
      simp only [Option.ite_none_right_eq_some, Option.some.injEq] at hevent
      obtain ⟨rfl, rfl⟩ := hevent
      exact once outcome' member

/-- A call whose outcome is that it was given up ended so. -/
theorem ended_of_outcome_aborted {world : World State} {call : Call}
    (h : world.outcome call = .aborted) : .ended call .aborted ∈ world.history := by
  unfold World.outcome at h
  cases hfind : world.history.findSome? _ with
  | none =>
    rw [hfind] at h
    cases h
  | some other =>
    rw [hfind] at h
    obtain ⟨event, member, hevent⟩ := List.exists_of_findSome?_eq_some hfind
    cases event with
    | started call => cases hevent
    | ended call' outcome' =>
      simp only [Option.ite_none_right_eq_some, Option.some.injEq] at hevent
      obtain ⟨rfl, rfl⟩ := hevent
      cases h
      exact member

/-- Where the history consists of the events of some answers to distinct calls, each call has the
outcome of its answer. -/
theorem outcome_of_perm {world : World State} {answers : List Answer}
    (perm : world.history.Perm (answers.flatMap Answer.events))
    (distinct : (answers.map (·.call)).Nodup) {answer : Answer} (member : answer ∈ answers) :
    world.outcome answer.call = answer.outcome := by
  apply outcome_eq
  · exact (Answer.ended_mem_iff perm).2 ⟨answer, member, rfl, rfl⟩
  · intro other ended
    obtain ⟨answer', member', same, rfl⟩ := (Answer.ended_mem_iff perm).1 ended
    rw [List.inj_on_of_nodup_map distinct member' member same]

end World

/-- Some event of a history gives up a call just if a call ended so. -/
theorem Event.any_isAbort_iff {history : List Event} :
    history.any Event.isAbort = true ↔ ∃ call, .ended call .aborted ∈ history := by
  rw [List.any_eq_true]
  constructor
  · rintro ⟨event, member, hevent⟩
    cases event with
    | started call => cases hevent
    | ended call outcome =>
      cases outcome with
      | aborted => exact ⟨call, member⟩
      | value | failed | timedOut | unbound => cases hevent
  · rintro ⟨call, member⟩
    exact ⟨_, member, rfl⟩

namespace Engine

variable {State : Type}

/-- What may become of a call in a run. If no resolver is bound to its field, the call ends with
that. Else its resolver was called, and the outcome is what the resolver gives under the time limit;
or the operation was cancelled, and the call was given up. -/
inductive Due (engine : Engine State) (world : World State) (call : Call) : Outcome → Prop
  | unbound {cause : BindingError}
      (lookup : engine.registry.lookup call.typeName call.fieldName = .error cause) :
      Due engine world call (.unbound cause)
  | ended {binding : Binding State} {result : Except FieldError Json} {delay : Nat}
      (lookup : engine.registry.lookup call.typeName call.fieldName = .ok binding)
      (started : .started call ∈ world.history)
      (gives : (binding.resolver call).Gives result delay) :
      Due engine world call (.within engine.configuration.resolverTimeout delay result)
  | aborted {binding : Binding State}
      (lookup : engine.registry.lookup call.typeName call.fieldName = .ok binding)
      (cancelled : world.cancelled = true) : Due engine world call .aborted

/-- A value with which a call ended is one that its resolver gave. -/
theorem Due.exists_gives {engine : Engine State} {world : World State} {call : Call} {value : Json}
    (due : engine.Due world call (.value value)) :
    ∃ binding delay, engine.registry.lookup call.typeName call.fieldName = .ok binding ∧
      .started call ∈ world.history ∧ (binding.resolver call).Gives (.ok value) delay := by
  generalize same : Outcome.value value = outcome at due
  cases due with
  | unbound => cases same
  | aborted => cases same
  | ended lookup started gives =>
    obtain rfl := Outcome.result_of_within same.symm
    exact ⟨_, _, lookup, started, gives⟩

/-- A resolver is bound to the field of a call that did not end for the lack of one. -/
theorem Due.isOk_lookup_iff {engine : Engine State} {world : World State} {call : Call}
    {outcome : Outcome} (due : engine.Due world call outcome) :
    (engine.registry.lookup call.typeName call.fieldName).isOk = true ↔
      ∀ cause, outcome ≠ .unbound cause := by
  cases due with
  | @unbound cause lookup =>
    rw [lookup]
    exact ⟨fun bound => absurd bound Bool.false_ne_true, fun kept => absurd rfl (kept cause)⟩
  | ended lookup =>
    rw [lookup]
    exact ⟨fun _ => (Outcome.within_kept _ _ _).2, fun _ => rfl⟩
  | aborted lookup =>
    rw [lookup]
    exact ⟨fun _ => by simp, fun _ => rfl⟩

/-- What became of a call in a run is due to its resolver, the time limit or the cancellation. -/
theorem run_due (engine : Engine State) (plan : Plan) (state : State) (cancelAt : Option Nat)
    (call : Call) (outcome : Outcome)
    (ended : .ended call outcome ∈ (engine.run plan state cancelAt).1.history) :
    engine.Due (engine.run plan state cancelAt).1 call outcome := by
  obtain ⟨answers, -, allowed, perm, aborted, cancelled⟩ := engine.run_yields plan state cancelAt
  obtain ⟨answer, member, rfl, rfl⟩ := (Answer.ended_mem_iff perm).1 ended
  cases allowed answer member with
  | unbound lookup => exact .unbound lookup
  | aborted lookup =>
    exact .aborted lookup (cancelled (aborted.trans (Event.any_isAbort_iff.2 ⟨_, ended⟩)))
  | ended lookup gives =>
    exact .ended lookup ((Answer.started_mem_iff perm).2 ⟨_, member, rfl, rfl⟩) gives

/-- What a run comes to is what its plan is evaluated to by the outcomes of the run, if no call is
made twice. And the calls that ended are those of the plan, each with its outcome. -/
theorem run_eval (engine : Engine State) {plan : Plan}
    (distinct : ∀ answers completion, plan.Yields answers completion →
      (answers.map (·.call)).Nodup)
    (state : State) (cancelAt : Option Nat) :
    let (world, completion) := engine.run plan state cancelAt
    completion = plan.eval world.outcome ∧
      (∀ call outcome, .ended call outcome ∈ world.history ↔
        call ∈ plan.calls world.outcome ∧ world.outcome call = outcome) ∧
      (world.aborted = true ↔ ∃ call, .ended call .aborted ∈ world.history) ∧
      (world.aborted = true → world.cancelled = true) := by
  obtain ⟨answers, yields, -, perm, aborted, cancelled⟩ := engine.run_yields plan state cancelAt
  generalize engine.run plan state cancelAt = result at *
  obtain ⟨world, completion⟩ := result
  simp only at yields perm aborted cancelled ⊢
  have agree : ∀ answer ∈ answers, world.outcome answer.call = answer.outcome :=
    fun answer member => World.outcome_of_perm perm (distinct answers completion yields) member
  obtain ⟨heval, hcalls⟩ := yields.eval_eq agree
  refine ⟨heval.symm, fun call outcome => ?_, ?_, cancelled⟩
  · rw [hcalls, Answer.ended_mem_iff perm, List.mem_map]
    constructor
    · rintro ⟨answer, member, rfl, rfl⟩
      exact ⟨⟨answer, member, rfl⟩, agree answer member⟩
    · rintro ⟨⟨answer, member, rfl⟩, rfl⟩
      exact ⟨answer, member, rfl, (agree answer member).symm⟩
  · rw [aborted, Event.any_isAbort_iff]

end Engine

end GraphQL
