import GraphQL.Proofs.Documents.Inlining
import GraphQL.Proofs.Visits.Lookups
import GraphQL.Proofs.Visits.Places

/-!
# Data and selections

The data of a response has the shape of the selections. An object has a key for each field that its
merged selection set selects of its type, in the order of first occurrence when fragments are gone
through depth first, and a list has an item for each element of the list that the resolver returned
(`Engine.data_mirrors`). No null and no order of completion changes that, because it is a matter of
single positions: each visit of the execution has its own one, where the data has it.

What a selection set selects is said here without leaving anything out (`Selection.merged`), while
execution goes on with the fields that it collected, and takes a named fragment only once.
-/

set_option autoImplicit false

namespace GraphQL

/-- The merged selection set of the fields that have some response key: the sub-selections of each,
in order. -/
def Selection.merged (typeName key : String) (selections : List Selection) : List Selection :=
  ((flattenAll typeName selections).filter (Field.hasKey key)).flatMap (·.selections)

namespace Marking

variable {m : Marking}

/-- An object that is no null has the keys of its selections. -/
theorem keys_of_complete_object {selections : List Selection} {type : ObjectType} {parent : Json}
    {path : Path} {nonNull : Bool} {value : Json}
    (h : (m.position nonNull (.object selections type parent path)).complete.value = some value)
    (present : value ≠ .null) :
    ∃ members, value = .object members ∧
      members.map (·.1) = (collectFields type.name selections).map (·.key) := by
  rw [position, ofObject_eq] at h
  rcases Position.exists_values_of_complete h with ⟨-, isNull⟩ | ⟨values, rfl, same⟩
  · exact absurd isNull present
  · refine ⟨_, rfl, List.map_fst_zip ?_⟩
    have length := congrArg List.length same
    simp only [List.length_map] at length ⊢
    exact length.le

section Values

variable {field : FieldName} {selections : List Selection} {raw value : Json} {path : Path}
  {nonNull : Bool}

/-- What fails does not come to a value that is present. -/
theorem failure_complete_ne (present : value ≠ .null) (nonNull : Bool) (path : Path)
    (cause : ExecutionError) : (failure nonNull path cause).complete.value ≠ some value :=
  fun failed => present (Position.eq_null_of_complete_failed failed).2

/-- A value that is no null was none before. -/
theorem ne_null_of_complete {type : TypeRef} (ends : type.isNonNull = false)
    (h : (m.position nonNull (.value field selections type raw path)).complete.value = some value)
    (present : value ≠ .null) : raw ≠ .null := by
  rintro rfl
  have leaf : ∀ inner, type ≠ .nonNull inner := by
    rintro inner rfl
    cases ends
  rw [position, ofValue] at h
  · split at h
    · exact failure_complete_ne present _ _ _ h
    · exact present (Option.some.inj h).symm
  · exact leaf

/-- A list that is no null completes an array, item by item. -/
theorem items_of_complete_list {item : TypeRef}
    (h : (m.position nonNull (.value field selections (.list item) raw path)).complete.value =
      some value) (present : value ≠ .null) :
    ∃ elements items, raw = .array elements ∧ value = .array items ∧
      items.length = elements.length := by
  have returned := ne_null_of_complete rfl h present
  cases raw with
  | array elements =>
    rw [position, ofValue] at h
    rcases Position.exists_values_of_complete h with ⟨-, isNull⟩ | ⟨items, rfl, same⟩
    · exact absurd isNull present
    · refine ⟨elements, items, rfl, rfl, ?_⟩
      have length := congrArg List.length same
      simpa using length.symm
  | null => exact absurd rfl returned
  | bool | number | string | object =>
    simp only [position, ofValue] at h
    exact absurd h (failure_complete_ne present _ _ _)

/-- A built-in scalar that is no null is written as its type says. -/
theorem output_of_complete_builtin {scalar : BuiltinScalar}
    (h : (m.position nonNull (.value field selections (.builtin scalar) raw path)).complete.value =
      some value) (present : value ≠ .null) : scalar.output? raw = some value := by
  have returned := ne_null_of_complete rfl h present
  rw [position, ofValue] at h
  · split at h
    · next output => rw [output, ← Option.some.inj h]
    · exact absurd h (failure_complete_ne present _ _ _)
  · exact returned

/-- A value of an enum or of a scalar that the schema declares is the one that was returned. -/
theorem eq_of_complete_named {name : String}
    (notObject : ∀ type, m.schema.type? name ≠ some (.object type))
    (h : (m.position nonNull (.value field selections (.named name) raw path)).complete.value =
      some value) (present : value ≠ .null) : value = raw := by
  have returned := ne_null_of_complete rfl h present
  have unlike := failure_complete_ne present nonNull path
  cases raw with
  | null => exact absurd rfl returned
  | object members =>
    simp only [position, ofValue] at h
    split at h
    · next declared _ => exact absurd declared (notObject _)
    · next symbol => cases symbol
    · exact (Option.some.inj h).symm
    · exact absurd h (unlike _)
  | string symbol =>
    simp only [position, ofValue] at h
    split at h
    · next members => cases members
    · next same =>
      cases same
      split at h
      · exact (Option.some.inj h).symm
      · exact absurd h (unlike _)
    · exact (Option.some.inj h).symm
    · exact absurd h (unlike _)
  | bool | number | array =>
    simp only [position, ofValue] at h
    split at h
    · next members => cases members
    · next symbol => cases symbol
    · exact (Option.some.inj h).symm
    · exact absurd h (unlike _)

end Values

/-- What is selected below a visit when nothing is left out: the selections of the operation at its
root, and the merged selection set of each field. -/
inductive Selects (m : Marking) (operation : Operation) (rootType : ObjectType) :
    Visit → List Selection → Prop
  | root : Selects m operation rootType (.object operation.selections rootType .null [])
      operation.selections
  | field {selections full : List Selection} {type : ObjectType} {parent : Json} {path : Path}
    {group : FieldGroup}
    (h : Selects m operation rootType (.object selections type parent path) full)
    (member : group ∈ collectFields type.name selections) :
    Selects m operation rootType (.field type parent path group)
      (Selection.merged type.name group.key full)
  | outcome {type : ObjectType} {parent : Json} {path : Path} {group : FieldGroup} {next : Visit}
    {full : List Selection} (h : Selects m operation rootType (.field type parent path group) full)
    (leads : m.Leads (.field type parent path group) next) : Selects m operation rootType next full
  | value {field : FieldName} {selections full : List Selection} {type : TypeRef} {value : Json}
    {path : Path} {next : Visit}
    (h : Selects m operation rootType (.value field selections type value path) full)
    (leads : m.Leads (.value field selections type value path) next) :
    Selects m operation rootType next full

section Selected

variable {operation : Operation} {rootType : ObjectType} {visit : Visit} {full : List Selection}

/-- Something is selected below each visit. -/
theorem Visits.exists_selects (visited : m.Visits operation rootType visit) :
    ∃ full, m.Selects operation rootType visit full := by
  induction visited with
  | refl => exact ⟨_, .root⟩
  | @tail visit next _ leads ih =>
    obtain ⟨full, selects⟩ := ih
    cases visit with
    | object selections type parent path =>
      cases leads with
      | field member => exact ⟨_, .field selects member⟩
    | field type parent path group => exact ⟨_, .outcome selects leads⟩
    | value field selections type value path => exact ⟨_, .value selects leads⟩

/-- Below what is not visited nothing is selected. -/
theorem Selects.visits (selects : m.Selects operation rootType visit full) :
    m.Visits operation rootType visit := by
  induction selects with
  | root => exact .refl
  | field h member ih => exact ih.tail (.field member)
  | outcome h leads ih => exact ih.tail leads
  | value h leads ih => exact ih.tail leads

/-- A visit goes on with what is selected up to repetitions. -/
theorem Selects.repeats {body : String → String × List Selection}
    (carries : Selection.CarriesAll body operation.selections)
    (selects : m.Selects operation rootType visit full) :
    Repeats [] visit.selections full ∧ Selection.CarriesAll body full := by
  induction selects with
  | root => exact ⟨.refl _ _, carries⟩
  | @field selections full type parent path group h member ih =>
    obtain ⟨repeats, carries⟩ := ih
    obtain ⟨other, inside, standsFor⟩ :=
      exists_mem_of_forall₂ (forall₂_collectFields type.name carries repeats) member
    have merged : other.selections = Selection.merged type.name group.key full := by
      rw [standsFor.key, Selection.merged, ← FieldGroup.fields_of_mem_ofFields inside]
      rfl
    exact merged ▸ ⟨standsFor.repeats, standsFor.carries⟩
  | @outcome type parent path group next full h leads ih =>
    cases leads with
    | outcome => exact ih
  | @value field selections full type value path next h leads ih =>
    cases leads with
    | nonNull | item | object => exact ih

end Selected

end Marking

namespace Engine

variable {State : Type}

/-- In an operation that is selected every spread carries its fragment. -/
theorem exists_carriesAll_of_select {engine : Engine State} {request : Request}
    {operation : Operation} {rootType : ObjectType}
    (selected : engine.select request = .ok (operation, rootType)) :
    ∃ body, Selection.CarriesAll body operation.selections := by
  obtain ⟨document, definition, ⟨text, -, parsed, chosen⟩, -, -, rfl⟩ :=
    select_eq_ok_iff.1 selected
  obtain ⟨source, passed⟩ := ExecutableDocument.exists_ofDocument parsed
  exact ⟨_, ExecutableDocument.carriesAll_linkOperation passed
    (ExecutableDocument.mem_operations_of_operation chosen)⟩

/-- Data mirrors the selection. Whichever resolvers there are, however long they take, whether
siblings run side by side or one after the other and whenever the operation is cancelled: an object
of the data that is no null has exactly the response keys of its merged selection set, all fragments
that apply gone through depth first, each key once and in the order of first occurrence. An array
that is no null and completes a list has as many items as the array that the resolver returned, and
each item completes the element in its place. At the bottom are the values of scalars and enums that
the resolvers returned, those of the built-in scalars written as their types say. All values that
are completed are those that resolvers returned for their fields, and the elements of these. -/
theorem data_mirrors (engine : Engine State) {request : Request} (state : State)
    (cancelAt : Option Nat) {operation : Operation} {rootType : ObjectType}
    (selected : engine.select request = .ok (operation, rootType)) {data : Json}
    (complete : (engine.execute request state cancelAt).response.data = some data) :
    let m := engine.marking request operation (engine.execute request state cancelAt).world
    (∀ visit, m.Visits operation rootType visit ↔
      ∃ full, m.Selects operation rootType visit full) ∧
    (∀ field selections type raw path,
      m.Visits operation rootType (.value field selections type raw path) →
      engine.Returned (engine.execute request state cancelAt).world path raw) ∧
    (∀ selections type parent path full value,
      m.Selects operation rootType (.object selections type parent path) full →
      data.at? path = some value → value ≠ .null →
      ∃ members, value = .object members ∧ members.map (·.1) =
        ((Selection.flattenAll type.name full).map (·.responseKey)).eraseDups) ∧
    (∀ field selections item raw path value,
      m.Visits operation rootType (.value field selections (.list item) raw path) →
      data.at? path = some value → value ≠ .null →
      ∃ elements items, raw = .array elements ∧ value = .array items ∧
        items.length = elements.length ∧
        ∀ i element, elements[i]? = some element →
          m.Visits operation rootType
            (.value field selections item element (path.join (.index i))) ∧
          data.at? (path.join (.index i)) = items[i]?) ∧
    (∀ field selections scalar raw path value,
      m.Visits operation rootType (.value field selections (.builtin scalar) raw path) →
      data.at? path = some value → value ≠ .null → scalar.output? raw = some value) ∧
    ∀ field selections name raw path value,
      m.Visits operation rootType (.value field selections (.named name) raw path) →
      (∀ type, engine.schema.type? name ≠ some (.object type)) →
      data.at? path = some value → value ≠ .null → value = raw := by
  intro m
  obtain ⟨body, carries⟩ := exists_carriesAll_of_select selected
  obtain ⟨response, -, -⟩ := engine.execute_selected state cancelAt selected
  have root : (m.root operation rootType).complete.value = some data :=
    (congrArg Response.data response).symm.trans complete
  -- what is found at the path of a visit is what the position of the visit comes to
  have comes : ∀ visit value, m.Visits operation rootType visit →
      data.at? visit.path = some value →
      ∃ nonNull, (m.position nonNull visit).complete.value = some value := by
    intro visit value visited found
    obtain ⟨nonNull, here⟩ := visited.exists_at?
    exact ⟨nonNull, Position.complete_at? root here found⟩
  refine ⟨fun visit => ⟨fun visited => visited.exists_selects, fun ⟨_, selects⟩ => selects.visits⟩,
    fun _ _ _ _ _ => engine.given_of_visits state cancelAt selected _, ?_, ?_, ?_, ?_⟩
  · intro selections type parent path full value selects found present
    obtain ⟨nonNull, completed⟩ := comes _ value selects.visits found
    obtain ⟨members, rfl, keys⟩ := Marking.keys_of_complete_object completed present
    obtain ⟨repeats, carries⟩ := selects.repeats carries
    exact ⟨members, rfl, keys.trans (map_key_collectFields type.name carries repeats)⟩
  · intro field selections item raw path value visited found present
    obtain ⟨nonNull, completed⟩ := comes _ value visited found
    obtain ⟨elements, items, rfl, rfl, length⟩ := Marking.items_of_complete_list completed present
    refine ⟨elements, items, rfl, rfl, length, fun i element inside => ?_⟩
    refine ⟨visited.tail (.item inside), ?_⟩
    rw [Path.join, Json.at?_append, show data.at? path = some (.array items) from found]
    cases h : items[i]? <;> simp [Json.at?, Json.part?, h]
  · intro field selections scalar raw path value visited found present
    obtain ⟨nonNull, completed⟩ := comes _ value visited found
    exact Marking.output_of_complete_builtin completed present
  · intro field selections name raw path value visited notObject found present
    obtain ⟨nonNull, completed⟩ := comes _ value visited found
    exact Marking.eq_of_complete_named notObject completed present

/-- Trees in trees: the keys of the data follow the selections, also where a fragment comes between
them, and where one key is selected twice. -/
theorem data_mirrors_grove :
    let request : Request :=
      { query := some "{h: tall ...F tree {tall} ...F} fragment F on Query {tree {tree {tall}} tall}" }
    ∃ operation rootType data, grove.select request = .ok (operation, rootType) ∧
      (grove.execute request () none).response.data = some data ∧
      ∃ members, data = .object members ∧ members.map (·.1) = ["h", "tree", "tall"] := by
  intro request
  have keys : ((grove.select request).toOption.any fun selected =>
      ((Selection.flattenAll selected.2.name selected.1.selections).map
        (·.responseKey)).eraseDups == ["h", "tree", "tall"]) = true := by decide +kernel
  have whole : ((grove.execute request () none).response.data.any (· != .null)) = true := by
    decide +kernel
  obtain ⟨operation, rootType, selected⟩ :
      ∃ operation rootType, grove.select request = .ok (operation, rootType) :=
    exists_selected (by decide +kernel)
  rw [selected] at keys
  cases complete : (grove.execute request () none).response.data with
  | none =>
    rw [complete] at whole
    cases whole
  | some data =>
    rw [complete] at whole
    obtain ⟨-, -, objects, -⟩ := data_mirrors grove () none selected complete
    obtain ⟨members, same, named⟩ := objects _ _ _ _ _ data .root rfl (bne_iff_ne.1 whole)
    exact ⟨operation, rootType, data, selected, rfl, members, same, named.trans (eq_of_beq keys)⟩

end Engine

end GraphQL
