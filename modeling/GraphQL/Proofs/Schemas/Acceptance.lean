import GraphQL.Proofs.Schemas.Collection

/-!
# Acceptance of schemas

Each check of a schema as a whole succeeds if and only if what it looks at is in order. The main
statement puts them together with the collection of definitions: exactly the well-formed documents
are accepted, whatever the order in which their types refer to each other.
-/

set_option autoImplicit false

namespace GraphQL

namespace Schema

section References

variable {schema : Schema}

/-- The check of the roots succeeds if and only if the roots that there are name object types. -/
theorem checkRoots_eq_ok_iff :
    schema.checkRoots = .ok () ↔
      (∃ type, schema.type? schema.queryRoot = some (.object type)) ∧
      ∀ root, schema.mutationRoot = some root → ∃ type, schema.type? root = some (.object type) := by
  rw [checkRoots]
  cases query : schema.type? schema.queryRoot with
  | none => simp [bind, Except.bind]
  | some queryType =>
    cases queryType with
    | object type =>
      cases schema.mutationRoot with
      | none => simp [pure, Except.pure]
      | some root =>
        cases mutation : schema.type? root with
        | none => simp [mutation]
        | some mutationType => cases mutationType <;> simp [mutation, pure, Except.pure]
    | _ => simp [bind, Except.bind]

/-- An input value may refer to a type if and only if it is declared and can be an input. -/
theorem checkInputReference_eq_ok_iff {value : InputValueDefinition} {place : Coordinate} :
    schema.checkInputReference value place = .ok () ↔
      ∃ target, schema.type? value.type.innermost = some target ∧ target.isInput = true := by
  rw [checkInputReference, resolve]
  cases found : schema.type? value.type.innermost with
  | none => simp [bind, Except.bind]
  | some target => simp [bind, Except.bind]

/-- The check of a field succeeds if and only if its own type can be an output and those of its
arguments can be inputs. -/
theorem checkField_eq_ok_iff {typeName : String} {field : FieldDefinition} :
    schema.checkField typeName field = .ok () ↔
      (∃ target, schema.type? field.type.innermost = some target ∧ target.isOutput = true) ∧
      ∀ argument ∈ field.arguments, ∃ target,
        schema.type? argument.type.innermost = some target ∧ target.isInput = true := by
  simp only [checkField, resolve]
  cases found : schema.type? field.type.innermost with
  | none => simp [bind, Except.bind]
  | some target =>
    cases output : target.isOutput with
    | false => simp [bind, Except.bind, output]
    | true =>
      simp only [bind, Except.bind, output, Bool.not_true, Bool.false_eq_true, if_false]
      rw [Checks.forM_eq_ok]
      simp [checkInputReference_eq_ok_iff, output]

/-- The check of a type succeeds if and only if it is not without fields and whatever its fields
refer to is declared and fits. -/
theorem checkType_eq_ok_iff {type : TypeDefinition} :
    schema.checkType type = .ok () ↔ type.HasFields ∧
      (∀ object, type = .object object → ∀ field ∈ object.fields,
        ∃ target, schema.type? field.type.innermost = some target ∧ target.isOutput = true) ∧
      ∀ value, type.Takes value →
        ∃ target, schema.type? value.type.innermost = some target ∧ target.isInput = true := by
  cases type with
  | builtin | scalar | enum =>
    refine iff_of_true rfl ⟨trivial, ?_, ?_⟩
    · rintro _ ⟨⟩
    · rintro _ ⟨⟩
  | object object =>
    have nonempty : (TypeDefinition.object object).HasFields ↔ object.fields.isEmpty = false := by
      rw [TypeDefinition.HasFields, List.isEmpty_eq_false_iff]
    cases empty : object.fields.isEmpty with
    | true => simp [checkType, nonempty, empty, bind, Except.bind]
    | false =>
      simp only [checkType, nonempty, empty, Bool.false_eq_true, if_false, true_and]
      rw [Checks.forM_eq_ok]
      simp only [checkField_eq_ok_iff, TypeDefinition.takes_object_iff]
      constructor
      · intro all
        refine ⟨?_, ?_⟩
        · rintro _ ⟨⟩ field member
          exact (all field member).1
        · rintro value ⟨field, ofType, ofField⟩
          exact (all field ofType).2 value ofField
      · rintro ⟨outputs, inputs⟩ field member
        exact ⟨outputs object rfl field member, fun value ofField =>
          inputs value ⟨field, member, ofField⟩⟩
  | inputObject type =>
    have nonempty : (TypeDefinition.inputObject type).HasFields ↔ type.fields.isEmpty = false := by
      rw [TypeDefinition.HasFields, List.isEmpty_eq_false_iff]
    cases empty : type.fields.isEmpty with
    | true => simp [checkType, nonempty, empty, bind, Except.bind]
    | false =>
      simp only [checkType, nonempty, empty, Bool.false_eq_true, if_false, true_and]
      rw [Checks.forM_eq_ok]
      simp [checkInputReference_eq_ok_iff, TypeDefinition.takes_inputObject_iff]

end References

section Defaults

variable {schema : Schema}

/-- The input values that are checked for their defaults are those that the type takes. -/
theorem mem_inputValues_iff {type : TypeDefinition} {value : InputValueDefinition} :
    (∃ place, (place, value) ∈ inputValues type) ↔ type.Takes value := by
  cases type with
  | builtin | scalar | enum =>
    constructor
    · rintro ⟨_, ⟨⟩⟩
    · rintro ⟨⟩
  | object object => simp [inputValues, TypeDefinition.takes_object_iff]
  | inputObject inputObject => simp [inputValues, TypeDefinition.takes_inputObject_iff]

/-- The check of a default succeeds if and only if it can be read at the type, if there is one. -/
theorem checkDefault_eq_ok_iff {place : Coordinate} {value : InputValueDefinition} :
    schema.checkDefault place value = .ok () ↔ ∀ literal, value.default = some literal →
      ∃ result, Coercion.coerceDefault schema value.name value.type literal = .ok result := by
  rw [checkDefault]
  cases value.default with
  | none => simp
  | some literal =>
    cases found : Coercion.coerceDefault schema value.name value.type literal with
    | ok result => simp [found]
    | error reason => simp [found]

/-- All checks of a schema succeed if and only if what each of them looks at is in order. -/
theorem check_eq_ok_iff :
    schema.check = .ok () ↔
      ((∃ type, schema.type? schema.queryRoot = some (.object type)) ∧
        ∀ root, schema.mutationRoot = some root →
          ∃ type, schema.type? root = some (.object type)) ∧
      (∀ type ∈ schema.types, schema.checkType type = .ok ()) ∧
      ∀ type ∈ schema.types, ∀ value, type.Takes value → ∀ literal, value.default = some literal →
        ∃ result, Coercion.coerceDefault schema value.name value.type literal = .ok result := by
  rw [check, Checks.then_eq_ok, Checks.then_eq_ok, checkRoots_eq_ok_iff, Checks.forM_eq_ok,
    Checks.forM_eq_ok]
  simp only [checkDefault_eq_ok_iff, List.mem_flatMap, Prod.forall, ← mem_inputValues_iff]
  refine and_congr_right fun _ => and_congr_right fun _ => ?_
  constructor
  · rintro all type member value ⟨place, taken⟩
    exact all place value ⟨type, member, taken⟩
  · rintro all place value ⟨type, member, taken⟩
    exact all type member value ⟨place, taken⟩

end Defaults

end Schema

namespace Coercion

/-- Without variables in scope, literals are read as constants are. -/
theorem coerceLiteral_empty (schema : Schema) (levels : Nat) :
    coerceLiteral schema {} levels = coerceConstant schema levels := by
  have scope : ({} : Variables).scope schema = .constants := rfl
  induction levels with
  | zero => rfl
  | succ levels ih =>
    funext type literal path
    rw [coerceLiteral, coerceConstant, scope, ih]

end Coercion

namespace Schema

variable {source : Document} {result : Schema}

/-- The types of a document and the built-in scalars are found by their names. -/
theorem type?_eq_some_iff (distinct : ({ types := source.types } : Draft).DistinctNames)
    {name : String} {type : TypeDefinition} :
    source.schema.type? name = some type ↔ type ∈ source.schema.types ∧ type.name = name := by
  have nodup : (source.schema.types.map (·.name)).Nodup := by
    rw [Document.schema, List.map_append, List.nodup_append]
    refine ⟨by decide, distinct.names, ?_⟩
    intro builtin isBuiltin declared isDeclared same
    obtain ⟨_, member, rfl⟩ := List.mem_map.1 isBuiltin
    obtain ⟨scalar, -, rfl⟩ := List.mem_map.1 member
    obtain ⟨type, member, rfl⟩ := List.mem_map.1 isDeclared
    exact distinct.notBuiltin type member scalar same.symm
  exact Checks.find?_key_eq_some_iff nodup

/-- The types of a schema are the built-in scalars and those that the document declares. -/
theorem mem_schema_types_iff {type : TypeDefinition} :
    type ∈ source.schema.types ↔
      (∃ scalar, type = .builtin scalar) ∨ type ∈ source.types := by
  have all : ∀ scalar, scalar ∈ BuiltinScalar.all := by
    intro scalar
    cases scalar <;> decide
  simp [Document.schema, all, eq_comm]

/-- Among the declared types there is an object type of a name. -/
theorem exists_object_iff (distinct : ({ types := source.types } : Draft).DistinctNames)
    {name : String} :
    (∃ type, source.schema.type? name = some (.object type)) ↔
      ∃ type, .object type ∈ source.types ∧ type.name = name := by
  simp only [type?_eq_some_iff distinct, mem_schema_types_iff, reduceCtorEq, exists_false, false_or]
  rfl

/-- What is found under a name is what is declared under it. -/
theorem exists_type?_iff (distinct : ({ types := source.types } : Draft).DistinctNames)
    {name : String} {p : TypeDefinition → Prop} :
    (∃ target, source.schema.type? name = some target ∧ p target) ↔
      ∃ target ∈ source.schema.types, target.name = name ∧ p target := by
  simp only [type?_eq_some_iff distinct, and_assoc]

/-- The query root is named and is an object type if and only if the document gives such a root. -/
theorem queryRoot_iff (distinct : ({ types := source.types } : Draft).DistinctNames) :
    ((source.schemaBlocks ≠ [] → (source.root? .query).isSome) ∧
      ∃ type, source.schema.type? source.schema.queryRoot = some (.object type)) ↔
      ∃ root type, source.root? .query = some root ∧ .object type ∈ source.types ∧
        type.name = root := by
  rw [exists_object_iff distinct]
  constructor
  · rintro ⟨named, type, member, name⟩
    cases given : source.root? .query with
    | some root => exact ⟨root, type, rfl, member, by simpa [Document.schema, given] using name⟩
    | none =>
      have noBlock : source.schemaBlocks = [] := by
        by_contra block
        have present := named block
        rw [given] at present
        cases present
      have root := root?_of_no_block noBlock .query
      have present : source.schema.types.any (·.name == OperationKind.query.render) = true := by
        refine List.any_eq_true.2 ⟨_, mem_schema_types_iff.2 (.inr member), ?_⟩
        simpa [Document.schema, given, TypeDefinition.name] using name
      rw [given, present] at root
      cases root
  · rintro ⟨root, type, given, member, rfl⟩
    exact ⟨fun _ => by simp [given], type, member, by simp [Document.schema, given]⟩

/-- What is true of built-in scalars is true of all types if it is true of the declared ones. -/
theorem forall_mem_schema_types_iff {p : TypeDefinition → Prop}
    (builtin : ∀ scalar, p (.builtin scalar)) :
    (∀ type ∈ source.schema.types, p type) ↔ ∀ type ∈ source.types, p type := by
  constructor
  · intro all type member
    exact all type (mem_schema_types_iff.2 (.inr member))
  · intro all type member
    rcases mem_schema_types_iff.1 member with ⟨scalar, rfl⟩ | declared
    · exact builtin scalar
    · exact all type declared

/-- What the checks of a schema as a whole say of the document that defines it. -/
theorem check_schema_eq_ok_iff (distinct : ({ types := source.types } : Draft).DistinctNames) :
    source.schema.check = .ok () ↔
      ((∃ type, source.schema.type? source.schema.queryRoot = some (.object type)) ∧
        ∀ root, source.root? .mutation = some root →
          ∃ type, .object type ∈ source.types ∧ type.name = root) ∧
      (∀ type ∈ source.types, type.HasFields ∧
        (∀ object, type = .object object → ∀ field ∈ object.fields,
          ∃ target ∈ source.schema.types, target.name = field.type.innermost ∧
            target.isOutput = true) ∧
        ∀ value, type.Takes value → ∃ target ∈ source.schema.types,
          target.name = value.type.innermost ∧ target.isInput = true) ∧
      ∀ type ∈ source.types, ∀ value, type.Takes value → ∀ literal, value.default = some literal →
        ∃ result, Coercion.coerceLiteral source.schema {} Coercion.allLevels value.type literal
          (.root value.name) = .ok result := by
  have noTaker : ∀ scalar value, ¬ (TypeDefinition.builtin scalar).Takes value := by
    rintro scalar value ⟨⟩
  rw [check_eq_ok_iff, forall_mem_schema_types_iff (fun _ => rfl),
    forall_mem_schema_types_iff (fun scalar value taken => absurd taken (noTaker scalar value))]
  simp only [checkType_eq_ok_iff, exists_object_iff distinct, exists_type?_iff distinct,
    Coercion.coerceDefault, Coercion.coerceLiteral_empty]
  rfl

/-- The checks of a whole document succeed if and only if it is well-formed. -/
theorem ofDocument_eq_ok_iff :
    ofDocument source = .ok result ↔ source.WellFormedSchema ∧ result = source.schema := by
  have empty : ({} : Draft).DistinctNames := ⟨List.nodup_nil, by simp⟩
  simp only [ofDocument, Checks.bind_eq_ok, Draft.addAll_eq_ok_iff empty, Option.toList_none,
    List.nil_append]
  constructor
  · rintro ⟨_, ⟨typeSystem, blocks, subscription, parts, names, rfl⟩, _, drafted, ⟨⟩, passed, done⟩
    have distinct : ({ types := source.types } : Draft).DistinctNames :=
      ⟨names.names, names.notBuiltin⟩
    obtain ⟨named, rfl⟩ := ofDraft_eq_ok_iff.1 drafted
    cases done
    obtain ⟨⟨query, mutation⟩, types, defaults⟩ := (check_schema_eq_ok_iff distinct).1 passed
    exact
      ⟨{ typeSystem
         schemaBlocks := blocks
         subscription
         typeNames := names.names
         notBuiltin := names.notBuiltin
         distinctParts := parts
         hasFields := fun type member => (types type member).1
         queryRoot := (queryRoot_iff distinct).1 ⟨named, query⟩
         mutationRoot := mutation
         outputs := fun type member => (types (.object type) member).2.1 type rfl
         inputs := fun type member => (types type member).2.2
         defaults }, rfl⟩
  · rintro ⟨wellFormed, rfl⟩
    have distinct : ({ types := source.types } : Draft).DistinctNames :=
      ⟨wellFormed.typeNames, wellFormed.notBuiltin⟩
    obtain ⟨named, query⟩ := (queryRoot_iff distinct).2 wellFormed.queryRoot
    have passed : source.schema.check = .ok () := by
      refine (check_schema_eq_ok_iff distinct).2
        ⟨⟨query, wellFormed.mutationRoot⟩, fun type member => ?_, wellFormed.defaults⟩
      refine ⟨wellFormed.hasFields type member, ?_, wellFormed.inputs type member⟩
      rintro object rfl
      exact wellFormed.outputs object member
    have names : Draft.DistinctNames
        { types := source.types, roots := source.schemaBlocks.head? } :=
      ⟨wellFormed.typeNames, wellFormed.notBuiltin⟩
    exact ⟨_, ⟨wellFormed.typeSystem, wellFormed.schemaBlocks, wellFormed.subscription,
      wellFormed.distinctParts, names, rfl⟩, _,
      ofDraft_eq_ok_iff.2 ⟨named, rfl⟩, (), passed, rfl⟩

/-- A text is accepted as a schema if and only if it is a well-formed document, and then the schema
is the one that the document defines. -/
theorem parseWithin_ok_iff_wellFormedSchema (limit : Nat) (text : String) (schema : Schema) :
    parseWithin limit text = .ok schema ↔
      ∃ source, Document.parse? limit text = some source ∧ source.WellFormedSchema ∧
        schema = source.schema := by
  rw [parseWithin]
  cases read : Document.parse? limit text with
  | none => simp
  | some source => simp [ofDocument_eq_ok_iff]

end Schema

end GraphQL
