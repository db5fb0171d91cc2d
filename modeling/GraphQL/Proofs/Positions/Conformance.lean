import GraphQL.Proofs.Positions.Executed

/-!
# Conformance of data

Values that conform to a type, by the selections that were made: nothing is null where a type is
non-null, scalars are in range, and an object has the keys that were selected, in order, each with a
value that conforms in turn. The data of a response conforms to the root type of its operation
whatever the resolvers did (`Engine.conforms_execute`).
-/

set_option autoImplicit false

namespace GraphQL

/-- The values by which a built-in scalar is written. -/
def BuiltinScalar.Holds : BuiltinScalar → Json → Prop
  | .int, .number (.int i) => Json.intMin ≤ i ∧ i ≤ Json.intMax
  | .float, .number _ => True
  | .string, .string _ => True
  | .boolean, .bool _ => True
  | .id, .string _ => True
  | _, _ => False

/-- A value that is written as a built-in scalar is one that the scalar holds. -/
theorem BuiltinScalar.holds_of_output? {scalar : BuiltinScalar} {value output : Json}
    (h : scalar.output? value = some output) : scalar.Holds output := by
  unfold BuiltinScalar.output? at h
  split at h
  · cases h
    trivial
  · obtain ⟨i, hi, rfl⟩ := Option.map_eq_some_iff.1 h
    unfold Json.int32? at hi
    split at hi
    · have inRange := of_decide_eq_true (Option.filter_eq_some_iff.1 hi).2
      exact inRange
    · cases hi
  · cases h
    trivial
  · cases h
    trivial
  · cases h
    trivial
  · cases h
    trivial
  · cases h

mutual

/-- A value conforms to a type, where some selections are made of the objects that it holds. -/
inductive Conforms (schema : Schema) : List Selection → TypeRef → Json → Prop
  | null {selections : List Selection} {type : TypeRef} (nullable : type.isNonNull = false) :
    Conforms schema selections type .null
  | nonNull {selections : List Selection} {type : TypeRef} {value : Json} (present : value ≠ .null)
    (h : Conforms schema selections type value) : Conforms schema selections (.nonNull type) value
  | list {selections : List Selection} {item : TypeRef} {values : List Json}
    (h : ∀ value ∈ values, Conforms schema selections item value) :
    Conforms schema selections (.list item) (.array values)
  | builtin {selections : List Selection} {scalar : BuiltinScalar} {value : Json}
    (h : scalar.Holds value) : Conforms schema selections (.builtin scalar) value
  | scalar {selections : List Selection} {name declared : String} {value : Json}
    (found : schema.type? name = some (.scalar declared)) :
    Conforms schema selections (.named name) value
  | enum {selections : List Selection} {name symbol : String} {type : EnumType}
    (found : schema.type? name = some (.enum type)) (declared : symbol ∈ type.values) :
    Conforms schema selections (.named name) (.string symbol)
  | object {selections : List Selection} {name : String} {type : ObjectType} {members : Json.Object}
    (found : schema.type? name = some (.object type))
    (h : ConformsObject schema selections type members) :
    Conforms schema selections (.named name) (.object members)

/-- An object has the keys that are selected of it, in order, and each of its entries conforms. -/
inductive ConformsObject (schema : Schema) : List Selection → ObjectType → Json.Object → Prop
  | fields {selections : List Selection} {type : ObjectType} {members : Json.Object}
    (keys : members.map Prod.fst = (collectFields type.name selections).map (·.key))
    (entries : ∀ group ∈ collectFields type.name selections, ∀ value,
      Json.Object.get? members group.key = some value → ConformsEntry schema type group value) :
    ConformsObject schema selections type members

/-- The entry of a group of fields holds the name of the type, or null for a field that the type
does not declare, or a value that conforms to the type of the field. -/
inductive ConformsEntry (schema : Schema) : ObjectType → FieldGroup → Json → Prop
  | typename {type : ObjectType} {group : FieldGroup} (h : group.first.name = "__typename") :
    ConformsEntry schema type group (.string type.name)
  | unknown {type : ObjectType} {group : FieldGroup} (h : group.first.name ≠ "__typename")
    (undeclared : type.field? group.first.name = none) : ConformsEntry schema type group .null
  | declared {type : ObjectType} {group : FieldGroup} {definition : FieldDefinition} {value : Json}
    (h : group.first.name ≠ "__typename")
    (declared : type.field? group.first.name = some definition)
    (conforms : Conforms schema group.selections definition.type value) :
    ConformsEntry schema type group value

end

namespace Marking

/-- The position of a value comes to one that conforms to its type, and to no null where the type
around it is non-null. -/
theorem conforms_ofValue (m : Marking) (field : FieldName) {selections : List Selection}
    {object : Bool → ObjectType → Json → Path → Position}
    (hobject : ∀ nonNull type value path result,
      (object nonNull type value path).complete.value = some result →
        (nonNull = false ∧ result = .null) ∨
          ∃ members, result = .object members ∧ ConformsObject m.schema selections type members)
    (nonNull : Bool) (type : TypeRef) (value : Json) (path : Path) {result : Json}
    (h : (m.ofValue field object nonNull type value path).complete.value = some result) :
    Conforms m.schema selections type result ∧ (nonNull = true → result ≠ .null) := by
  -- a null of a nullable position conforms, whatever it is that failed there
  have lost : ∀ {nonNull : Bool} {type : TypeRef} {result : Json}, type.isNonNull = false →
      nonNull = false ∧ result = .null →
        Conforms m.schema selections type result ∧ (nonNull = true → result ≠ .null) := by
    rintro nonNull type result ends ⟨rfl, rfl⟩
    exact ⟨.null ends, fun strict => absurd strict Bool.false_ne_true⟩
  fun_induction Marking.ofValue m field object nonNull type value path generalizing result with
  | case1 nonNull inner value path ih =>
    obtain ⟨conforms, present⟩ := ih h
    exact ⟨.nonNull (present rfl) conforms, fun _ => present rfl⟩
  | case2 type path notNonNull => cases h
  | case3 type nonNull path nullable notNonNull =>
    exact lost (TypeRef.isNonNull_eq_false notNonNull)
      ⟨eq_false_of_ne_true nullable, (Option.some.inj h).symm⟩
  | case4 nonNull item values path ih =>
    rcases Position.exists_values_of_complete h with isNull | ⟨results, rfl, same⟩
    · exact lost rfl isNull
    · refine ⟨.list fun result member => ?_, fun _ => Shape.build_ne_null .items results⟩
      obtain ⟨i, hi, rfl⟩ := List.getElem_of_mem member
      have at_i := congrArg (·[i]?) same
      simp only [List.getElem?_map, List.getElem?_mapIdx, List.getElem?_eq_getElem hi,
        Option.map_some, Option.map_eq_some_iff] at at_i
      obtain ⟨part, ⟨value, -, rfl⟩, hpart⟩ := at_i
      exact (ih i value hpart).1
  | case6 nonNull scalar value path present output houtput =>
    cases h
    exact ⟨.builtin (BuiltinScalar.holds_of_output? houtput), fun _ => output?_ne_null houtput⟩
  | case8 nonNull name path type members htype =>
    rcases hobject nonNull type _ path result h with isNull | ⟨members, rfl, conforms⟩
    · exact lost rfl isNull
    · exact ⟨.object htype conforms, fun _ => Json.noConfusion⟩
  | case9 nonNull name path type symbol htype declared =>
    cases h
    exact ⟨.enum htype (List.contains_iff_mem.1 declared), fun _ => Json.noConfusion⟩
  | case11 nonNull name path scalar value htype present =>
    cases h
    exact ⟨.scalar htype, fun _ => present⟩
  | case5 | case7 | case10 | case12 => exact lost rfl (Position.eq_null_of_complete_failed h)

/-- The position of a response key comes to an entry that conforms. -/
theorem conforms_ofField (m : Marking) {object : Bool → ObjectType → Json → Path → Position}
    (type : ObjectType) (parent : Json) (path : Path) (group : FieldGroup)
    (hobject : ∀ nonNull type value path result,
      (object nonNull type value path).complete.value = some result →
        (nonNull = false ∧ result = .null) ∨
          ∃ members, result = .object members ∧
            ConformsObject m.schema group.selections type members)
    {result : Json} (h : (m.ofField object type parent path group).complete.value = some result) :
    ConformsEntry m.schema type group result := by
  unfold ofField at h
  split at h
  · next isTypename =>
    cases h
    exact .typename (beq_iff_eq.1 isTypename)
  next notTypename =>
  have other : group.first.name ≠ "__typename" := fun same => notTypename (beq_iff_eq.2 same)
  simp only at h
  split at h
  · next undeclared =>
    rw [(Position.eq_null_of_complete_failed h).2]
    exact .unknown other undeclared
  next definition declared =>
  refine .declared other declared ?_
  have lost : ∀ {error : Option ResponseError},
      (Position.failed definition.type.isNonNull error).complete.value = some result →
        Conforms m.schema group.selections definition.type result := by
    intro error h
    obtain ⟨nullable, rfl⟩ := Position.eq_null_of_complete_failed h
    exact .null nullable
  split at h
  · exact lost h
  split at h
  · exact lost h
  unfold ofOutcome at h
  split at h
  · exact (m.conforms_ofValue _ hobject false _ _ _ h).1
  · exact lost h
  · exact lost h
  · exact lost h
  · exact lost h

/-- The position of an object comes to an object that conforms, unless it may be null and is. -/
theorem conforms_ofObject (m : Marking) (selections : List Selection) (nonNull : Bool)
    (type : ObjectType) (value : Json) (path : Path) {result : Json}
    (h : (m.ofObject selections nonNull type value path).complete.value = some result) :
    (nonNull = false ∧ result = .null) ∨
      ∃ members, result = .object members ∧ ConformsObject m.schema selections type members := by
  induction selections using collectFields_induction
    generalizing nonNull type value path result with
  | level selections ih =>
    rw [ofObject_eq] at h
    rcases Position.exists_values_of_complete h with isNull | ⟨values, rfl, same⟩
    · exact Or.inl isNull
    refine Or.inr ⟨_, rfl, .fields ?_ ?_⟩
    · have length := congrArg List.length same
      simp only [List.length_map] at length
      rw [List.map_fst_zip]
      simp [length]
    · intro group member result hresult
      obtain ⟨i, hi, rfl⟩ := List.getElem_of_mem member
      have hgroup := List.getElem?_eq_getElem hi
      have place : ((collectFields type.name selections).map (·.key)).idxOf? _ = some i :=
        (Shape.index?_fields_iff (nodup_keys_collectFields type.name selections)).2
          (by rw [List.getElem?_map, hgroup, Option.map_some])
      rw [Shape.get?_zip, place, Option.bind_some] at hresult
      have at_i := congrArg (·[i]?) same
      simp only [List.getElem?_map, hgroup, hresult, Option.map_some, Option.some.injEq] at at_i
      exact m.conforms_ofField type value path _ (fun nonNull type value path result h =>
        ih _ _ (List.getElem_mem hi) nonNull type value path h) at_i

end Marking

namespace Engine

variable {State : Type}

/-- The data of a response conforms to the root type of the operation. -/
theorem conforms_execute (engine : Engine State) {request : Request} (state : State)
    (cancelAt : Option Nat) {data : Json}
    (h : (engine.execute request state cancelAt).response.data = some data) :
    ∃ operation rootType members, engine.select request = .ok (operation, rootType) ∧
      data = .object members ∧
      ConformsObject engine.schema operation.selections rootType members := by
  cases selected : engine.select request with
  | error cause =>
    unfold execute at h
    rw [selected] at h
    cases h
  | ok result =>
    obtain ⟨operation, rootType⟩ := result
    obtain ⟨response, -, -⟩ := engine.execute_selected state cancelAt selected
    rw [response] at h
    rcases Marking.conforms_ofObject _ _ _ _ _ _ h with ⟨nullable, -⟩ | ⟨members, rfl, conforms⟩
    · cases nullable
    · exact ⟨operation, rootType, members, rfl, rfl, conforms⟩

/-- The data of a query for one number is an object of the root type. -/
theorem conforms_execute_sample :
    ∃ operation rootType members,
      sample.select { query := some "{lenient}" } = .ok (operation, rootType) ∧
      Json.object [("lenient", .ofInt 7)] = .object members ∧
      ConformsObject sample.schema operation.selections rootType members := by
  have answered : (sample.execute { query := some "{lenient}" } () none).response.data =
      some (.object [("lenient", .ofInt 7)]) := by decide +kernel
  exact sample.conforms_execute () none answered

end Engine

end GraphQL
