import GraphQL.Proofs.Visits.Faults

/-!
# The places of visits

Every visit of an execution has its own position in the response, and it is found where the path of
the visit says: each step from a visit to the next one leads downwards in the tree of positions, or
stays where it is.
-/

set_option autoImplicit false

namespace GraphQL

namespace Marking

variable {m : Marking}

/-- The position of a field that makes a call is that of what became of the call. -/
theorem ofField_of_request? {object : Bool → ObjectType → Json → Path → Position}
    {type : ObjectType} {parent : Json} {path : Path} {group : FieldGroup}
    {definition : FieldDefinition} {call : Call}
    (h : m.request? type parent path group = some (definition, call)) :
    m.ofField object type parent path group =
      m.ofOutcome { typeName := type.name, fieldName := group.first.name } object definition.type
        call.path (m.outcome call) := by
  unfold request? at h
  unfold ofField
  by_cases isTypename : (group.first.name == "__typename") = true
  · rw [if_pos isTypename] at h
    cases h
  rw [if_neg isTypename] at h ⊢
  cases hdefinition : type.field? group.first.name with
  | none =>
    rw [hdefinition] at h
    cases h
  | some declared =>
    rw [hdefinition] at h
    dsimp only at h ⊢
    split at h
    · next hcheck harguments =>
      cases h
      rw [hcheck]
      dsimp only
      rw [harguments]
    · cases h

/-- The position of a visit is found below that of one that leads to it. -/
theorem exists_at?_of_leads {visit next : Visit} (leads : m.Leads visit next) (nonNull : Bool) :
    ∃ path nonNull', next.path = visit.path ++ path ∧
      (m.position nonNull visit).at? path = some (m.position nonNull' next) := by
  cases leads with
  | @field selections type parent path group h =>
    refine ⟨[.key group.key], false, rfl, ?_⟩
    obtain ⟨i, hi, same⟩ := List.getElem_of_mem h
    have here : (collectFields type.name selections)[i]? = some group :=
      same ▸ List.getElem?_eq_getElem hi
    have index : (Shape.fields ((collectFields type.name selections).map (·.key))).index?
        (.key group.key) = some i := by
      rw [Shape.index?_fields_iff (nodup_keys_collectFields _ _), List.getElem?_map, here,
        Option.map_some]
    rw [position, ofObject_eq, Position.at?_cons]
    · rfl
    · rw [Position.part?, index, Option.bind_some, List.getElem?_map, here, Option.map_some]
      rfl
  | outcome h returned =>
    refine ⟨[], false, by rw [List.append_nil]; exact path_of_request? h, ?_⟩
    rw [position, ofField_of_request? h, returned]
    rfl
  | nonNull =>
    refine ⟨[], true, (List.append_nil _).symm, ?_⟩
    rw [position, ofValue]
    rfl
  | @item field selections item values path i value h =>
    refine ⟨[.index i], false, rfl, ?_⟩
    rw [position, ofValue, Position.at?_cons]
    · rfl
    · rw [Position.part?, Shape.index?, Option.bind_some, List.getElem?_mapIdx, h, Option.map_some]
      rfl
  | object h =>
    refine ⟨[], nonNull, (List.append_nil _).symm, ?_⟩
    simp only [position, ofValue, h]
    rfl

/-- The position of a visit is found at its path. -/
theorem Visits.exists_at? {operation : Operation} {rootType : ObjectType} {visit : Visit}
    (visited : m.Visits operation rootType visit) :
    ∃ nonNull, (m.root operation rootType).at? visit.path = some (m.position nonNull visit) := by
  induction visited with
  | refl => exact ⟨true, rfl⟩
  | @tail visit next _ leads ih =>
    obtain ⟨nonNull, here⟩ := ih
    obtain ⟨path, nonNull', below, there⟩ := exists_at?_of_leads leads nonNull
    exact ⟨nonNull', by rw [below, Position.at?_append, here, Option.bind_some, there]⟩

end Marking

end GraphQL
