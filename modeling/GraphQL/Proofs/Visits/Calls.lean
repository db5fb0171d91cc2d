import GraphQL.Proofs.Jobs.Origins
import GraphQL.Proofs.Visits.Lookups

/-!
# Which calls are made

A field of a visited object is called if there is something to call and the call can be made
(`Marking.Admits`): the field is declared, it has a sub-selection where its type is that of objects
and only there, and its arguments can be read. The calls of a run are made for such fields and for
no others, no two at one path, each after its parent was produced and with that parent
(`Engine.execute_calls`). In a run that is not cancelled no such field goes without a call.
-/

set_option autoImplicit false

namespace GraphQL

/-- The calls that were made are those that the history says were started. -/
theorem World.mem_calls {State : Type} {world : World State} {call : Call} :
    call ∈ world.calls ↔ .started call ∈ world.history := by
  rw [World.calls, List.mem_filterMap]
  constructor
  · rintro ⟨event, member, same⟩
    cases event with
    | started other =>
      cases same
      exact member
    | ended => cases same
  · exact fun member => ⟨_, member, rfl⟩

/-- Among items with distinct keys one item is alone with its key. -/
theorem filter_key_eq_singleton {α β : Type} [BEq β] [LawfulBEq β] {key : α → β} {items : List α}
    (distinct : (items.map key).Nodup) {item : α} (member : item ∈ items) :
    items.filter (fun other => key other == key item) = [item] := by
  induction items with
  | nil => cases member
  | cons first rest ih =>
    obtain ⟨new, others⟩ := List.nodup_cons.1 distinct
    rcases List.mem_cons.1 member with rfl | member
    · rw [List.filter_cons, if_pos (beq_self_eq_true _), List.filter_eq_nil_iff.2]
      intro other inside same
      exact new (eq_of_beq same ▸ List.mem_map_of_mem inside)
    · rw [List.filter_cons_of_neg, ih others member]
      intro same
      exact new (eq_of_beq same ▸ List.mem_map_of_mem member)

namespace Marking

variable {m : Marking}

/-- A call can be made for a group of fields of an object type: the first field is declared and not
the name of the type, sub-selections are there if and only if the field's type is that of objects,
and the arguments of the first field can be read. -/
structure Admits (m : Marking) (type : ObjectType) (group : FieldGroup)
    (definition : FieldDefinition) (arguments : Json.Object) : Prop where
  notTypename : group.first.name ≠ "__typename"
  declared : type.field? group.first.name = some definition
  selection : group.selections ≠ [] ↔
    (m.schema.object? definition.type.innermost).isSome = true
  coerced : Coercion.coerceArguments m.schema m.vars type.name definition group.first.arguments =
    .ok arguments

/-- A sub-selection fits if it is there just for a field of object type. -/
theorem checkSelection_eq_none_iff {schema : Schema} {definition : FieldDefinition}
    {selections : List Selection} : schema.checkSelection definition selections = none ↔
      (selections ≠ [] ↔ (schema.object? definition.type.innermost).isSome = true) := by
  unfold Schema.checkSelection
  cases schema.object? definition.type.innermost <;> cases selections <;> simp

/-- A field is called if the group admits it, with the arguments that were read. -/
theorem request?_eq_some_iff {type : ObjectType} {parent : Json} {path : Path} {group : FieldGroup}
    {definition : FieldDefinition} {call : Call} :
    m.request? type parent path group = some (definition, call) ↔
      ∃ arguments, m.Admits type group definition arguments ∧
        call = { parent, arguments, path := path.join (.key group.key),
                 typeName := type.name, fieldName := group.first.name } := by
  unfold request?
  constructor
  · intro h
    split at h
    · cases h
    · next notTypename =>
      split at h
      · cases h
      · next known =>
        split at h
        · next selection coerced =>
          cases h
          exact ⟨_, ⟨by simpa using notTypename, known, checkSelection_eq_none_iff.1 selection,
            coerced⟩, rfl⟩
        · cases h
  · rintro ⟨arguments, ⟨notTypename, known, selection, coerced⟩, rfl⟩
    rw [if_neg (by simpa using notTypename), known]
    simp only [checkSelection_eq_none_iff.2 selection, coerced]

/-- A field that is visited is one of a visited object. -/
theorem Visits.of_field {operation : Operation} {rootType : ObjectType} {type : ObjectType}
    {parent : Json} {path : Path} {group : FieldGroup}
    (visited : m.Visits operation rootType (.field type parent path group)) :
    ∃ selections, m.Visits operation rootType (.object selections type parent path) ∧
      group ∈ collectFields type.name selections := by
  cases visited with
  | tail before leads =>
    cases leads with
    | field member => exact ⟨_, before, member⟩

end Marking

namespace Engine

variable {State : Type} {engine : Engine State} {request : Request}

/-- A run has given up a call if and only if the history tells of one. -/
theorem execute_aborted_iff (engine : Engine State) {request : Request} (state : State)
    (cancelAt : Option Nat) {operation : Operation} {rootType : ObjectType}
    (selected : engine.select request = .ok (operation, rootType)) :
    let world := (engine.execute request state cancelAt).world
    world.aborted = true ↔ ∃ call, .ended call .aborted ∈ world.history := by
  rw [execute_of_select engine state cancelAt selected]
  obtain ⟨-, -, -, -, aborted, -⟩ := engine.run_yields (operation.plan engine.schema
    engine.configuration.parallelSiblings request.variableValues rootType) state cancelAt
  dsimp only
  rw [aborted, Event.any_isAbort_iff]

/-- A call is made for a field that admits one, of an object that is visited. -/
theorem exists_admits_of_mem_calls (engine : Engine State) {request : Request} (state : State)
    (cancelAt : Option Nat) {operation : Operation} {rootType : ObjectType}
    (selected : engine.select request = .ok (operation, rootType)) :
    let world := (engine.execute request state cancelAt).world
    let m := engine.marking request operation world
    ∀ call ∈ world.calls, ∃ selections type path group definition arguments,
      m.Visits operation rootType (.object selections type call.parent path) ∧
      group ∈ collectFields type.name selections ∧ m.Admits type group definition arguments ∧
      call = { parent := call.parent, arguments, path := path.join (.key group.key),
               typeName := type.name, fieldName := group.first.name } := by
  intro world m call started
  obtain ⟨answers, perm, -, -, made⟩ := engine.execute_answers state cancelAt selected
  obtain ⟨answer, answered, rfl⟩ := List.mem_map.1 ((World.calls_perm perm).mem_iff.1 started)
  obtain ⟨visit, visited, makes⟩ := (made answer.call).1
    (List.mem_map_of_mem (List.mem_filter.1 answered).1)
  cases makes with
  | @field type parent path group definition _ h =>
    obtain ⟨arguments, admits, same⟩ := Marking.request?_eq_some_iff.1 h
    obtain ⟨selections, visitedObject, member⟩ := visited.of_field
    have ofParent : answer.call.parent = parent := by rw [same]
    rw [ofParent]
    exact ⟨selections, type, path, group, definition, arguments, visitedObject, member, admits,
      same⟩

/-- In a run that is not cancelled, each call that a visit makes is made. -/
theorem mem_calls_of_makes (closed : engine.schema.Closed)
    (valid : engine.registry.validate engine.schema = .ok ()) (state : State)
    (cancelAt : Option Nat) {operation : Operation} {rootType : ObjectType}
    (selected : engine.select request = .ok (operation, rootType)) :
    let world := (engine.execute request state cancelAt).world
    let m := engine.marking request operation world
    world.cancelled = false → ∀ visit call, m.Visits operation rootType visit →
      m.Makes visit call → call ∈ world.calls := by
  intro world m uncancelled visit call visited makes
  obtain ⟨answers, perm, -, answered, made⟩ := engine.execute_answers state cancelAt selected
  obtain ⟨binding, bound⟩ := exists_lookup_of_makes closed valid selected visited makes
  obtain ⟨answer, member, rfl⟩ := List.mem_map.1 ((made call).2 ⟨visit, visited, makes⟩)
  have ended : .ended answer.call answer.outcome ∈ world.history :=
    (Answer.ended_mem_iff perm).2 ⟨answer, member, rfl, rfl⟩
  have here : answer.made = true := by
    obtain ⟨-, answers⟩ := answered answer member
    cases answers with
    | unbound missing =>
      rw [missing] at bound
      cases bound
    | aborted =>
      have aborted := (execute_aborted_iff engine state cancelAt selected).2 ⟨_, ended⟩
      obtain ⟨-, -, cancelled⟩ := engine.execute_selected state cancelAt selected
      rw [cancelled aborted] at uncancelled
      cases uncancelled
    | ended => rfl
  exact World.mem_calls.2 ((Answer.started_mem_iff perm).2 ⟨answer, member, here, rfl⟩)

/-- Calls are made with discipline. In every run no two calls have the same path. A call is made
only for a field that admits one, of an object that is visited: with the arguments that were read,
at the path of the object and the response key, and with the object as its parent, which is null at
the root and else was found before in what the call at its path had ended with, and is what the
resolver of that call gives, or an element of it. What the calls end with is what their resolvers
give under the time limit, unless they were given up. If the schema was accepted and the resolvers
were validated, then in a run that is not cancelled each such field is called exactly once, whatever
becomes of the others. -/
theorem execute_calls (engine : Engine State) {request : Request} (state : State)
    (cancelAt : Option Nat) {operation : Operation} {rootType : ObjectType}
    (selected : engine.select request = .ok (operation, rootType)) :
    let world := (engine.execute request state cancelAt).world
    let m := engine.marking request operation world
    (world.calls.map (·.path)).Nodup ∧
    (∀ before call after, world.history = before ++ .started call :: after →
      ∃ selections type path group definition arguments,
        m.Visits operation rootType (.object selections type call.parent path) ∧
        group ∈ collectFields type.name selections ∧
        m.Admits type group definition arguments ∧
        call = { parent := call.parent, arguments, path := path.join (.key group.key),
                 typeName := type.name, fieldName := group.first.name } ∧
        Produced before path call.parent ∧
        ((path = [] ∧ call.parent = .null) ∨ engine.Returned world path call.parent)) ∧
    (∀ call outcome, .ended call outcome ∈ world.history → engine.Due world call outcome) ∧
    ∀ limit text, Schema.parseWithin limit text = .ok engine.schema →
      engine.registry.validate engine.schema = .ok () → world.cancelled = false →
      ∀ selections type parent path group definition arguments,
        m.Visits operation rootType (.object selections type parent path) →
        group ∈ collectFields type.name selections → m.Admits type group definition arguments →
        world.calls.filter (fun call => call.path == path.join (.key group.key)) =
          [{ parent, arguments, path := path.join (.key group.key),
             typeName := type.name, fieldName := group.first.name }] := by
  intro world m
  obtain ⟨answers, perm, paths, -, -⟩ := engine.execute_answers state cancelAt selected
  have calls : world.calls.Perm ((answers.filter (·.made)).map (·.call)) := World.calls_perm perm
  have distinct : (world.calls.map (·.path)).Nodup := by
    rw [(calls.map _).nodup_iff, List.map_map]
    exact paths.sublist (List.filter_sublist.map _)
  refine ⟨distinct, ?_, (engine.execute_due state cancelAt selected).2.1, ?_⟩
  · intro before call after split
    have started : call ∈ world.calls := World.mem_calls.2 (split ▸ by simp)
    obtain ⟨selections, type, path, group, definition, arguments, visited, member, admits, same⟩ :=
      engine.exists_admits_of_mem_calls state cancelAt selected call started
    -- the parent of a call was produced at the path above its own key, and only there
    have inTurn : InTurn world.history := by
      rw [show world = (engine.execute request state cancelAt).world from rfl,
        execute_of_select engine state cancelAt selected]
      exact engine.run_inTurn (operation.grounded_plan _ _ _ rootType) state cancelAt
    obtain ⟨path', key, place, produced⟩ := inTurn.produced split
    have same' : path' = path := by
      rw [same] at place
      exact (List.append_inj_left' place rfl).symm
    exact ⟨selections, type, path, group, definition, arguments, visited, member, admits, same,
      same' ▸ produced, engine.given_of_visits state cancelAt selected _ visited⟩
  · intro limit text accepted valid uncancelled selections type parent path group definition
      arguments visited member admits
    have makes : m.Makes (.field type parent path group) _ :=
      .field (Marking.request?_eq_some_iff.2 ⟨arguments, admits, rfl⟩)
    have made := mem_calls_of_makes (Schema.closed_of_parseWithin accepted) valid state cancelAt
      selected uncancelled _ _ (visited.tail (.field member)) makes
    exact filter_key_eq_singleton distinct made

/-- A tree in a tree: four calls, each of which is the only one at its path and was made after its
parent was there, given by the resolver above. -/
theorem execute_calls_grove :
    let request : Request := { query := some "{tree {tree {tall} tall}}" }
    let world := (grove.execute request () none).world
    world.calls.length = 4 ∧ ∀ call ∈ world.calls,
      world.calls.filter (fun other => other.path == call.path) = [call] ∧
        ∃ before path, before <+: world.history ∧ Produced before path call.parent ∧
          ((path = [] ∧ call.parent = .null) ∨ grove.Returned world path call.parent) := by
  intro request world
  have calls : world.calls.length = 4 := by decide +kernel
  have uncancelled : world.cancelled = false := by decide +kernel
  obtain ⟨operation, rootType, selected⟩ :
      ∃ operation rootType, grove.select request = .ok (operation, rootType) :=
    exists_selected (by decide +kernel)
  obtain ⟨-, only, -, once⟩ := execute_calls grove () none selected
  refine ⟨calls, fun call member => ?_⟩
  obtain ⟨before, after, split⟩ := List.append_of_mem (World.mem_calls.1 member)
  obtain ⟨selections, type, path, group, definition, arguments, visited, inside, admits, same,
    produced⟩ := only before call after split
  refine ⟨?_, before, path, ⟨_, split.symm⟩, produced⟩
  have alone := once 64 groveText accepted_grove valid_grove uncancelled selections type call.parent
    path group definition arguments visited inside admits
  rw [← same] at alone
  rw [congrArg Call.path same]
  exact alone

end Engine

end GraphQL
