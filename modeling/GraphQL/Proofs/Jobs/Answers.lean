import GraphQL.Engine
import GraphQL.Proofs.Jobs.Interference
import Mathlib.Data.List.Forall2

/-!
# The answers of a run

What became of the calls of a run is a list of answers, one for each call that the plan comes to
(`Plan.Yields`), and the history of the run is made of the events of these answers, in some order
(`Engine.run_yields`). The answer to a call is what its resolver gives, under the time limit, for
states that it may find where it reads the one that resolvers share (`Action.run_ensures`), unless
the call is given up. A resolver that always takes the same time for a call and ends with the same
result leaves no choice but that (`Registry.Answers.eq_within`).
-/

set_option autoImplicit false

namespace GraphQL

/-- What became of a call: its outcome, and whether a resolver was called. -/
structure Answer where
  call : Call
  outcome : Outcome
  made : Bool

/-- What an answer leaves in the history. -/
def Answer.events (answer : Answer) : List Event :=
  (if answer.made then [.started answer.call] else []) ++ [.ended answer.call answer.outcome]

namespace Answer

variable {history : List Event} {answers : List Answer} {call : Call} {outcome : Outcome}

/-- Where a history consists of the events of some answers, the calls that started are those that
were made. -/
theorem started_mem_iff (perm : history.Perm (answers.flatMap events)) :
    .started call ∈ history ↔ ∃ answer ∈ answers, answer.made = true ∧ answer.call = call := by
  have own : ∀ answer : Answer,
      .started call ∈ answer.events ↔ answer.made = true ∧ answer.call = call := by
    intro answer
    cases made : answer.made <;> simp [events, made, eq_comm]
  rw [perm.mem_iff, List.mem_flatMap]
  simp only [own]

/-- Where a history consists of the events of some answers, each call ended with its answer. -/
theorem ended_mem_iff (perm : history.Perm (answers.flatMap events)) :
    .ended call outcome ∈ history ↔
      ∃ answer ∈ answers, answer.call = call ∧ answer.outcome = outcome := by
  have own : ∀ answer : Answer,
      .ended call outcome ∈ answer.events ↔ answer.call = call ∧ answer.outcome = outcome := by
    intro answer
    cases made : answer.made <;> simp [events, made, eq_comm]
  rw [perm.mem_iff, List.mem_flatMap]
  simp only [own]

end Answer

namespace Outcome

/-- The outcome of a call whose resolver ended. -/
def ofResult : Except FieldError Json → Outcome
  | .ok json => .value json
  | .error cause => .failed cause

/-- The outcome of a call whose resolver ends at some instant, if there is no limit or it is not
over by then. -/
def byDeadline (deadline : Option Deadline) (instant : Nat) (result : Except FieldError Json) :
    Outcome :=
  match deadline with
  | some limit => if limit.instant < instant then .timedOut limit.span else ofResult result
  | none => ofResult result

/-- The outcome of a call whose resolver takes some time under a limit. -/
def within (timeout : Option Duration) (delay : Nat) (result : Except FieldError Json) : Outcome :=
  match timeout with
  | some span => if span.ceilMilliseconds < delay then .timedOut span else ofResult result
  | none => ofResult result

/-- The limit of a call is over that much later than the call began. -/
theorem byDeadline_after (timeout : Option Duration) (now delay : Nat)
    (result : Except FieldError Json) :
    byDeadline (timeout.map fun span => .after span now) (now + delay) result =
      within timeout delay result := by
  cases timeout with
  | none => rfl
  | some span =>
    simp only [Option.map_some, byDeadline, within, Deadline.after, Nat.add_lt_add_iff_left]

/-- A call whose resolver takes some time exceeds the limit or has the result. -/
theorem within_eq (timeout : Option Duration) (delay : Nat) (result : Except FieldError Json) :
    (∃ span, within timeout delay result = .timedOut span) ∨
      within timeout delay result = ofResult result := by
  cases timeout with
  | none => exact .inr rfl
  | some span =>
    by_cases late : span.ceilMilliseconds < delay
    · exact .inl ⟨span, if_pos late⟩
    · exact .inr (if_neg late)

/-- A resolver that ends gives its call up neither for a cancellation nor for a missing binding. -/
theorem within_kept (timeout : Option Duration) (delay : Nat) (result : Except FieldError Json) :
    within timeout delay result ≠ .aborted ∧
      ∀ cause, within timeout delay result ≠ .unbound cause := by
  rcases within_eq timeout delay result with ⟨span, same⟩ | same
  · simp [same]
  · cases result <;> simp [same, ofResult]

/-- The value of a call is the one that its resolver ended with. -/
theorem result_of_within {timeout : Option Duration} {delay : Nat}
    {result : Except FieldError Json} {value : Json}
    (h : within timeout delay result = .value value) : result = .ok value := by
  rcases within_eq timeout delay result with ⟨span, same⟩ | same
  · rw [same] at h
    cases h
  · rw [same] at h
    cases result with
    | ok own =>
      cases h
      rfl
    | error cause => cases h

end Outcome

namespace Action

variable {State : Type}

/-- Whatever the shared state is, the action waits some time in all and ends with some result. -/
inductive Takes (result : Except FieldError Json) : Nat → Action State → Prop
  | done : Takes result 0 (.done result)
  | read {delay : Nat} {next : State → Action State}
      (h : ∀ state, Takes result delay (next state)) : Takes result delay (.read next)
  | write {delay : Nat} {state : State} {next : Action State} (h : Takes result delay next) :
      Takes result delay (.write state next)
  | wait {delay milliseconds : Nat} {next : Action State} (h : Takes result delay next) :
      Takes result (milliseconds + delay) (.wait milliseconds next)
  | cancel {delay : Nat} {next : Action State} (h : Takes result delay next) :
      Takes result delay (.cancel next)

/-- For some of the states that it may find where it reads the shared state, the action waits some
time in all and ends with some result. -/
inductive Gives (result : Except FieldError Json) : Nat → Action State → Prop
  | done : Gives result 0 (.done result)
  | read {delay : Nat} {next : State → Action State} (state : State)
      (h : Gives result delay (next state)) : Gives result delay (.read next)
  | write {delay : Nat} {state : State} {next : Action State} (h : Gives result delay next) :
      Gives result delay (.write state next)
  | wait {delay milliseconds : Nat} {next : Action State} (h : Gives result delay next) :
      Gives result (milliseconds + delay) (.wait milliseconds next)
  | cancel {delay : Nat} {next : Action State} (h : Gives result delay next) :
      Gives result delay (.cancel next)

/-- Every action gives something, whatever the shared state is. -/
theorem exists_gives (state : State) (action : Action State) :
    ∃ result delay, action.Gives result delay := by
  induction action with
  | done result => exact ⟨result, 0, .done⟩
  | read next ih =>
    obtain ⟨result, delay, gives⟩ := ih state
    exact ⟨result, delay, .read state gives⟩
  | write own next ih =>
    obtain ⟨result, delay, gives⟩ := ih
    exact ⟨result, delay, .write gives⟩
  | wait milliseconds next ih =>
    obtain ⟨result, delay, gives⟩ := ih
    exact ⟨result, milliseconds + delay, .wait gives⟩
  | cancel next ih =>
    obtain ⟨result, delay, gives⟩ := ih
    exact ⟨result, delay, .cancel gives⟩

/-- An action that does not depend on the shared state gives one result, after one delay. -/
theorem Takes.eq_of_gives {result result' : Except FieldError Json} {delay delay' : Nat}
    {action : Action State} (takes : action.Takes result delay)
    (gives : action.Gives result' delay') : result' = result ∧ delay' = delay := by
  induction takes generalizing delay' with
  | done =>
    cases gives
    exact ⟨rfl, rfl⟩
  | read h ih =>
    cases gives with
    | read state given => exact ih state given
  | write h ih =>
    cases gives with
    | write given => exact ih given
  | wait h ih =>
    cases gives with
    | wait given =>
      obtain ⟨same, rfl⟩ := ih given
      exact ⟨same, rfl⟩
  | cancel h ih =>
    cases gives with
    | cancel given => exact ih given

/-- A call whose outcome is known ends with it. -/
theorem settle_ensures (call : Call) (outcome : Outcome) (h : outcome ≠ .aborted)
    (world : World State) :
    (settle call outcome world).EnsuresFrom world fun events o =>
      events = [.ended call outcome] ∧ o = outcome := by
  have hany : [Event.ended call outcome].any Event.isAbort = false := by
    cases outcome <;> simp_all [Event.isAbort]
  refine ⟨[.ended call outcome], ⟨⟨rfl, id, ?_, ?_⟩, rfl⟩, rfl, rfl⟩
  · simp only [hany, Bool.or_false]
    rfl
  · simp only [hany]
    exact fun h => absurd h Bool.false_ne_true

/-- A call is given up in an operation that is cancelled. -/
theorem abort_ensures (call : Call) (world : World State) (h : world.cancelled = true) :
    (abort call world).EnsuresFrom world fun events o =>
      events = [.ended call .aborted] ∧ o = .aborted := by
  refine ⟨[.ended call .aborted], ⟨⟨rfl, id, ?_, fun _ => h⟩, rfl⟩, rfl, rfl⟩
  exact (Bool.or_true _).symm

/-- The outcome that an action may have under a limit, when it goes on at some instant: the call is
given up, or it ends with what the action gives. -/
def MayEnd (deadline : Option Deadline) (now : Nat) (action : Action State) (outcome : Outcome) :
    Prop :=
  outcome = .aborted ∨ ∃ result delay, action.Gives result delay ∧
    outcome = .byDeadline deadline (now + delay) result

/-- What follows a step of an action may end the same ways as the action. -/
theorem MayEnd.of_gives {deadline : Option Deadline} {now now' : Nat} {action next : Action State}
    {outcome : Outcome} (h : next.MayEnd deadline now' outcome)
    (step : ∀ result delay', next.Gives result delay' →
      ∃ delay, action.Gives result delay ∧ now + delay = now' + delay') :
    action.MayEnd deadline now outcome := by
  refine h.imp id ?_
  rintro ⟨result, delay', given, same⟩
  obtain ⟨delay, gives, instant⟩ := step result delay' given
  exact ⟨result, delay, gives, instant ▸ same⟩

/-- Waiting: the call is given up if the operation is cancelled, goes on once the wait is over, and
ends at its limit if that comes first. -/
theorem run_wait_ensures (call : Call) (deadline : Option Deadline) (milliseconds : Nat)
    (next : Action State)
    (hnext : ∀ later : World State, (∀ limit ∈ deadline, later.now ≤ limit.instant) →
      (next.run call deadline later).EnsuresFrom later fun events outcome =>
        events = [.ended call outcome] ∧ next.MayEnd deadline later.now outcome)
    (world : World State) (inTime : ∀ limit ∈ deadline, world.now ≤ limit.instant) :
    ((Action.wait milliseconds next).run call deadline world).EnsuresFrom world
      fun events outcome => events = [.ended call outcome] ∧
        (Action.wait milliseconds next).MayEnd deadline world.now outcome := by
  -- going on after the wait, at the instant at which it is over
  have resumed : ∀ later : World State, later.now = world.now + milliseconds →
      (∀ limit ∈ deadline, later.now ≤ limit.instant) →
      (next.run call deadline later).EnsuresFrom later fun events outcome =>
        events = [.ended call outcome] ∧
          (Action.wait milliseconds next).MayEnd deadline world.now outcome := by
    intro later hnow hlimit
    refine (hnext later hlimit).mono ?_
    rintro events outcome ⟨rfl, may⟩
    refine ⟨rfl, may.of_gives fun result delay gives => ?_⟩
    exact ⟨milliseconds + delay, .wait gives, by omega⟩
  have aborted : ∀ later : World State, later.cancelled = true →
      (abort call later).EnsuresFrom later fun events outcome =>
        events = [.ended call outcome] ∧
          (Action.wait milliseconds next).MayEnd deadline world.now outcome := by
    intro later hc
    refine (abort_ensures call later hc).mono ?_
    rintro events outcome ⟨rfl, rfl⟩
    exact ⟨rfl, .inl rfl⟩
  simp only [run]
  split
  · next zero => exact resumed world (by omega) inTime
  · next positive =>
    cases deadline with
    | none =>
      refine Progress.ensuresFrom_paused fun later due => ?_
      by_cases hc : later.cancelled = true
      · rw [if_pos hc]
        exact aborted later hc
      · rw [if_neg hc]
        exact resumed later (due.resolve_left hc) (by simp)
    | some limit =>
      have timedOut : ∀ later : World State, limit.instant < world.now + milliseconds →
          (settle call (.timedOut limit.span) later).EnsuresFrom later fun events outcome =>
            events = [.ended call outcome] ∧
              (Action.wait milliseconds next).MayEnd (some limit) world.now outcome := by
        intro later early
        refine (settle_ensures call (.timedOut limit.span) (by simp) later).mono ?_
        rintro events outcome ⟨rfl, rfl⟩
        -- whatever the action would have given, it would have been too late
        obtain ⟨result, delay, gives⟩ := exists_gives later.state next
        exact ⟨rfl, .inr ⟨result, milliseconds + delay, .wait gives, (if_pos (by omega)).symm⟩⟩
      simp only
      split
      · next late => exact timedOut world (by omega)
      · refine Progress.ensuresFrom_paused fun later due => ?_
        by_cases hc : later.cancelled = true
        · rw [if_pos hc]
          exact aborted later hc
        · have hnow := due.resolve_left hc
          rw [if_neg hc]
          rcases Nat.le_total (world.now + milliseconds) limit.instant with first | first
          · rw [Nat.min_eq_left first] at hnow
            simp only [hnow, Nat.le_refl, if_true]
            refine resumed later hnow fun limit' hl => ?_
            cases hl
            omega
          · rw [Nat.min_eq_right first] at hnow
            split
            · next ready =>
              refine resumed later (by omega) fun limit' hl => ?_
              cases hl
              omega
            · exact timedOut later (by omega)

/-- A resolver adds one event to the history, the end of its call. An action that goes on before
its limit is over ends as it may. -/
theorem run_ensures (call : Call) (deadline : Option Deadline) (action : Action State)
    (world : World State) (inTime : ∀ limit ∈ deadline, world.now ≤ limit.instant) :
    (action.run call deadline world).EnsuresFrom world fun events outcome =>
      events = [.ended call outcome] ∧ action.MayEnd deadline world.now outcome := by
  -- on the action: the delay of the whole is that of its rest and the time until that starts
  induction action generalizing world with
  | done result =>
    have own :
        (Action.done result : Action State).MayEnd deadline world.now (.ofResult result) := by
      refine .inr ⟨result, 0, .done, ?_⟩
      cases deadline with
      | none => rfl
      | some limit =>
        have early := inTime limit rfl
        exact (if_neg (by omega)).symm
    cases result with
    | ok value =>
      refine (settle_ensures call (.value value) (by simp) world).mono ?_
      rintro events outcome ⟨rfl, rfl⟩
      exact ⟨rfl, own⟩
    | error error =>
      refine (settle_ensures call (.failed error) (by simp) world).mono ?_
      rintro events outcome ⟨rfl, rfl⟩
      exact ⟨rfl, own⟩
  | read next ih =>
    refine (ih world.state world inTime).mono ?_
    rintro events outcome ⟨rfl, may⟩
    exact ⟨rfl, may.of_gives fun result delay gives => ⟨delay, .read world.state gives, rfl⟩⟩
  | write state next ih =>
    have leads : World.Leads [] world (world.write state) :=
      ⟨⟨(List.append_nil _).symm, id, (Bool.or_false _).symm, by simp⟩, rfl⟩
    refine Progress.EnsuresFrom.of_leads leads ((ih (world.write state) inTime).mono ?_)
    rintro events outcome ⟨rfl, may⟩
    exact ⟨rfl, may.of_gives fun result delay gives => ⟨delay, .write gives, rfl⟩⟩
  | cancel next ih =>
    have leads : World.Leads [] world { world with cancelled := true } :=
      ⟨⟨by simp, fun _ => rfl, by simp, by simp⟩, rfl⟩
    refine Progress.EnsuresFrom.of_leads leads
      ((ih { world with cancelled := true } inTime).mono ?_)
    rintro events outcome ⟨rfl, may⟩
    exact ⟨rfl, may.of_gives fun result delay gives => ⟨delay, .cancel gives, rfl⟩⟩
  | wait milliseconds next ih =>
    exact run_wait_ensures call deadline milliseconds next ih world inTime

end Action

namespace Registry

variable {State : Type}

/-- What may become of a call: no resolver is bound to its field, or it is given up, before or after
its resolver was called, or it ends with what its resolver gives under the time limit. -/
inductive Answers (registry : Registry State) (timeout : Option Duration) : Answer → Prop
  | unbound {call : Call} {cause : BindingError}
      (lookup : registry.lookup call.typeName call.fieldName = .error cause) :
      Answers registry timeout ⟨call, .unbound cause, false⟩
  | aborted {call : Call} {binding : Binding State} {made : Bool}
      (lookup : registry.lookup call.typeName call.fieldName = .ok binding) :
      Answers registry timeout ⟨call, .aborted, made⟩
  | ended {call : Call} {binding : Binding State} {result : Except FieldError Json} {delay : Nat}
      (lookup : registry.lookup call.typeName call.fieldName = .ok binding)
      (gives : (binding.resolver call).Gives result delay) :
      Answers registry timeout ⟨call, .within timeout delay result, true⟩

/-- A call that was not given up has the outcome that its resolver gives, under the time limit. -/
theorem Answers.eq_within {registry : Registry State} {timeout : Option Duration} {answer : Answer}
    (allowed : registry.Answers timeout answer) (kept : answer.outcome ≠ .aborted)
    {binding : Binding State}
    (bound : registry.lookup answer.call.typeName answer.call.fieldName = .ok binding)
    {result : Except FieldError Json} {delay : Nat}
    (takes : (binding.resolver answer.call).Takes result delay) :
    answer.outcome = .within timeout delay result ∧ answer.made = true := by
  cases allowed with
  | unbound lookup =>
    rw [lookup] at bound
    cases bound
  | aborted => exact absurd rfl kept
  | ended lookup gives =>
    rw [lookup] at bound
    cases bound
    obtain ⟨rfl, rfl⟩ := takes.eq_of_gives gives
    exact ⟨rfl, rfl⟩

/-- Performing a call adds the events of one answer to the history. -/
theorem perform_ensures (registry : Registry State) (timeout : Option Duration) (call : Call) :
    (registry.perform timeout call).Ensures fun events outcome =>
      ∃ made, registry.Answers timeout ⟨call, outcome, made⟩ ∧
        events = Answer.events ⟨call, outcome, made⟩ := by
  intro world
  unfold perform
  cases lookup : registry.lookup call.typeName call.fieldName with
  | error cause =>
    refine (Action.settle_ensures call (.unbound cause) (by simp) world).mono ?_
    rintro events outcome ⟨rfl, rfl⟩
    exact ⟨false, .unbound lookup, rfl⟩
  | ok binding =>
    simp only
    split
    · next hc =>
      refine (Action.abort_ensures call world hc).mono ?_
      rintro events outcome ⟨rfl, rfl⟩
      exact ⟨false, .aborted lookup, rfl⟩
    · have leads : World.Leads [.started call] world (world.record (.started call)) :=
        ⟨⟨rfl, id, (Bool.or_false _).symm, fun h => absurd h Bool.false_ne_true⟩, rfl⟩
      refine Progress.EnsuresFrom.of_leads leads
        ((Action.run_ensures call (timeout.map fun span => .after span world.now)
          (binding.resolver call) _ ?_).mono ?_)
      · intro limit hl
        obtain ⟨span, -, rfl⟩ := Option.map_eq_some_iff.1 hl
        exact Nat.le_add_right _ _
      · rintro events outcome ⟨rfl, rfl | ⟨result, delay, gives, rfl⟩⟩
        · exact ⟨true, .aborted lookup, rfl⟩
        · refine ⟨true, ?_, rfl⟩
          have own := Outcome.byDeadline_after timeout world.now delay result
          exact own.symm ▸ .ended lookup gives

end Registry

namespace Plan

variable {State : Type}

/-- What a plan comes to when its calls have some answers, listed in the order of the plan: those
of a group part by part. -/
inductive Yields : Plan → List Answer → Completion → Prop
  | done (completion : Completion) : Yields (.done completion) [] completion
  | call {call : Call} {next : Outcome → Plan} {outcome : Outcome} {made : Bool}
      {answers : List Answer} {completion : Completion}
      (h : Yields (next outcome) answers completion) :
      Yields (.call call next) (⟨call, outcome, made⟩ :: answers) completion
  | group {serial : Bool} {parts : List Plan} {finish : List Completion → Completion}
      {results : List (List Answer × Completion)}
      (h : List.Forall₂ (fun part result => Yields part result.1 result.2) parts results) :
      Yields (.group serial parts finish) (results.flatMap Prod.fst)
        (finish (results.map Prod.snd))

/-- Some answers are allowed and leave some events, in whatever order. -/
def Leave (allowed : Answer → Prop) (answers : List Answer) (events : List Event) : Prop :=
  (∀ answer ∈ answers, allowed answer) ∧ events.Perm (answers.flatMap Answer.events)

/-- The answers of two parts leave the events of both, in whatever order. -/
theorem Leave.append {allowed : Answer → Prop} {first second : List Answer}
    {before after events : List Event} (h : Leave allowed first before)
    (h' : Leave allowed second after) (perm : events.Perm (before ++ after)) :
    Leave allowed (first ++ second) events := by
  refine ⟨fun answer member => ?_, ?_⟩
  · rcases List.mem_append.1 member with member | member
    · exact h.1 answer member
    · exact h'.1 answer member
  · rw [List.flatMap_append]
    exact perm.trans (h.2.append h'.2)

/-- A way to put jobs together, of which only the rule for one more job matters, comes to the
results of the parts of a group. -/
theorem ensures_parts {allowed : Answer → Prop} {perform : Call → Job State Outcome}
    (combine : List (Job State Completion) → Job State (List Completion))
    (nil : (combine []).Ensures fun events results => events = [] ∧ results = [])
    (cons : ∀ job rest first others, job.Ensures first → (combine rest).Ensures others →
      (combine (job :: rest)).Ensures fun events results => ∃ result results' before after,
        results = result :: results' ∧ events.Perm (before ++ after) ∧ first before result ∧
          others after results')
    (parts : List Plan)
    (ih : ∀ part ∈ parts, (part.start perform).Ensures fun events completion =>
      ∃ answers, part.Yields answers completion ∧ Leave allowed answers events) :
    (combine (parts.map (·.start perform))).Ensures fun events completions =>
      ∃ results : List (List Answer × Completion), completions = results.map Prod.snd ∧
        List.Forall₂ (fun part result => part.Yields result.1 result.2) parts results ∧
        Leave allowed (results.flatMap Prod.fst) events := by
  induction parts with
  | nil =>
    refine nil.mono ?_
    rintro events completions ⟨rfl, rfl⟩
    exact ⟨[], rfl, .nil, by simp [Leave]⟩
  | cons part rest ihRest =>
    refine (cons _ _ _ _ (ih part (by simp)) (ihRest fun part member =>
      ih part (List.mem_cons_of_mem _ member))).mono ?_
    rintro events completions ⟨completion, completions, before, after, rfl, perm,
      ⟨answers, yields, leave⟩, results, rfl, each, leaves⟩
    exact ⟨(answers, completion) :: results, rfl, .cons yields each, leave.append leaves perm⟩

/-- Running a plan comes to what the plan yields for allowed answers, and leaves their events. -/
theorem start_ensures {allowed : Answer → Prop} {perform : Call → Job State Outcome}
    (hperform : ∀ call, (perform call).Ensures fun events outcome =>
      ∃ made, allowed ⟨call, outcome, made⟩ ∧ events = Answer.events ⟨call, outcome, made⟩)
    (plan : Plan) :
    (plan.start perform).Ensures fun events completion =>
      ∃ answers, plan.Yields answers completion ∧ Leave allowed answers events := by
  induction plan using Plan.induction with
  | done completion =>
    refine (Job.ensures_pure completion).mono ?_
    rintro events _ ⟨rfl, rfl⟩
    exact ⟨[], .done _, by simp [Leave]⟩
  | call call next ih =>
    refine ((hperform call).bind ih).mono ?_
    rintro events completion ⟨outcome, before, after, rfl, ⟨made, ha, rfl⟩, answers, yields, leave⟩
    refine ⟨⟨call, outcome, made⟩ :: answers, .call yields, ?_⟩
    have single : Leave allowed [⟨call, outcome, made⟩] (Answer.events ⟨call, outcome, made⟩) :=
      ⟨by simpa using ha, by simp⟩
    exact single.append leave (List.Perm.refl _)
  | group serial parts finish ih =>
    -- whichever way the parts are run, their answers together are those of the group
    have finished : ∀ {job : Job State (List Completion)},
        (job.Ensures fun events completions => ∃ results : List (List Answer × Completion),
          completions = results.map Prod.snd ∧
          List.Forall₂ (fun part result => part.Yields result.1 result.2) parts results ∧
          Leave allowed (results.flatMap Prod.fst) events) →
        (job.map finish).Ensures fun events completion =>
          ∃ answers, (Plan.group serial parts finish).Yields answers completion ∧
            Leave allowed answers events := by
      intro job h
      refine (h.map finish).mono ?_
      rintro events completion ⟨completions, rfl, results, rfl, each, leave⟩
      exact ⟨_, .group each, leave⟩
    simp only [start, startAll_eq_map]
    split
    · refine finished (ensures_parts Job.inOrder (Job.ensures_pure []) ?_ parts ih)
      intro job rest first others h hrest
      refine (h.inOrder_cons hrest).mono ?_
      rintro events results ⟨result, results', before, after, rfl, rfl, hb, ha⟩
      exact ⟨result, results', before, after, rfl, List.Perm.refl _, hb, ha⟩
    · exact finished (ensures_parts Job.together (Job.ensures_pure [])
        (fun job rest first others h hrest => h.together_cons hrest) parts ih)

end Plan

namespace Engine

variable {State : Type}

/-- The run of a plan comes to what the plan yields for some answers, and its history consists of
their events. It has given up a call if one of them was given up, and only if it was cancelled. -/
theorem run_yields (engine : Engine State) (plan : Plan) (state : State) (cancelAt : Option Nat) :
    ∃ answers, plan.Yields answers (engine.run plan state cancelAt).2 ∧
      (∀ answer ∈ answers,
        engine.registry.Answers engine.configuration.resolverTimeout answer) ∧
      (engine.run plan state cancelAt).1.history.Perm (answers.flatMap Answer.events) ∧
      (engine.run plan state cancelAt).1.aborted =
        (engine.run plan state cancelAt).1.history.any Event.isAbort ∧
      ((engine.run plan state cancelAt).1.aborted = true →
        (engine.run plan state cancelAt).1.cancelled = true) := by
  have h := plan.start_ensures
    (engine.registry.perform_ensures engine.configuration.resolverTimeout)
  obtain ⟨first, leads, later⟩ := h { state, cancelled := cancelAt == some 0 }
  obtain ⟨more, records, answers, yields, allowed, perm⟩ := later.finish cancelAt
  have total := leads.toRecords.trans records
  have history : (engine.run plan state cancelAt).1.history = first ++ more := total.history
  have aborted : (engine.run plan state cancelAt).1.aborted =
      (engine.run plan state cancelAt).1.history.any Event.isAbort := by
    rw [history]
    exact total.aborted.trans (Bool.false_or _)
  refine ⟨answers, yields, allowed, history ▸ perm, aborted, fun ha => ?_⟩
  rw [aborted, history] at ha
  exact total.cancelled_of_abort ha

/-- Nothing is given up in a run that is not cancelled. -/
theorem run_not_aborted (engine : Engine State) (plan : Plan) (state : State)
    (cancelAt : Option Nat) (uncancelled : (engine.run plan state cancelAt).1.cancelled = false) :
    (engine.run plan state cancelAt).1.aborted = false := by
  obtain ⟨-, -, -, -, -, cancelled⟩ := engine.run_yields plan state cancelAt
  rw [← Bool.not_eq_true]
  intro given
  rw [cancelled given] at uncancelled
  cases uncancelled

end Engine

end GraphQL
