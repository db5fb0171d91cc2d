import GraphQL.Proofs.Inputs.Uses

/-!
# Parts of literals

What a literal is read as depends on what is read of its parts, on the defaults of the input fields
and on the variables that stand in it (`Coercion.literalAt_congr`).
-/

set_option autoImplicit false

namespace GraphQL

/-- A literal stands directly inside another one. -/
inductive Literal.Inside : Literal → Literal → Prop
  | item {items : List Literal} {item : Literal} (member : item ∈ items) : Inside item (.list items)
  | field {fields : List (String × Literal)} {key : String} {value : Literal}
    (member : (key, value) ∈ fields) : Inside value (.object fields)

/-- A variable stands in a literal if it stands in a part of it. -/
theorem Literal.Holds.of_inside {name : String} {part whole : Literal} (holds : part.Holds name)
    (inside : part.Inside whole) : whole.Holds name := by
  cases inside with
  | item member => exact .item member holds
  | field member => exact .field member holds

/-- A literal is read as the default of some input field. -/
def Schema.FieldDefault (schema : Schema) (literal : Literal) : Prop :=
  ∃ name type, schema.type? name = some (.inputObject type) ∧ ∃ field ∈ type.fields,
    field.default = some literal

namespace Coercion

open Checks

section Given

variable {fields : List (String × Literal)} {name : String} {literal : Literal}

/-- The value that is given for a field stands inside the object literal. -/
theorem inside_of_given? (given : given? fields name = some literal) :
    literal.Inside (.object fields) := by
  obtain ⟨⟨key, value⟩, found, rfl⟩ := Option.map_eq_some_iff.1 given
  exact .field (List.mem_of_find?_eq_some found)

/-- What an object literal supplies for a field depends on what it gives for it alone. -/
theorem literalField_eq_match (scope : Scope)
    (deeper : TypeRef → Literal → InputPath → Coerced Json) (field : InputValueDefinition)
    (path : InputPath) :
    literalField scope deeper fields field path =
      match given? fields field.name with
      | none => .ok none
      | some (.var name) => (do
        match ← scope.typed name field.type path with
        | some value => return some value
        | none => return if field.default.isSome then none else some .null)
      | some literal => some <$> deeper field.type literal path := by
  rfl

end Given

mutual

/-- What a literal of a declared scalar is taken as depends on the variables in it. -/
theorem substitute_congr {raw raw' : String → Coerced Json} :
    (literal : Literal) → (∀ name, literal.Holds name → raw name = raw' name) →
      substitute raw literal = substitute raw' literal
  | .var name, h => by
    rw [substitute, substitute]
    exact h name .here
  | .list items, h => by
    rw [substitute, substitute, substituteItems_congr items fun item member name holds =>
      h name (.item member holds)]
  | .object fields, h => by
    rw [substitute, substitute, substituteFields_congr fields fun key value member name holds =>
      h name (.field member holds)]
  | .null, _ | .bool _, _ | .int _, _ | .float _, _ | .string _, _ | .enum _, _ => by
    rw [substitute, substitute]

/-- Items are filled alike where the variables that they hold have the same values. -/
theorem substituteItems_congr {raw raw' : String → Coerced Json} :
    (items : List Literal) → (∀ item ∈ items, ∀ name, item.Holds name → raw name = raw' name) →
      substituteItems raw items = substituteItems raw' items
  | [], _ => by
    rw [substituteItems, substituteItems]
  | item :: rest, h => by
    obtain ⟨here, later⟩ := List.forall_mem_cons.1 h
    rw [substituteItems, substituteItems, substitute_congr item here,
      substituteItems_congr rest later]

/-- Fields are filled alike where the variables that their values hold have the same values. -/
theorem substituteFields_congr {raw raw' : String → Coerced Json} :
    (fields : List (String × Literal)) →
      (∀ key value, (key, value) ∈ fields → ∀ name, value.Holds name → raw name = raw' name) →
      substituteFields raw fields = substituteFields raw' fields
  | [], _ => by
    rw [substituteFields, substituteFields]
  | (key, value) :: rest, h => by
    rw [substituteFields, substituteFields, substitute_congr value (h key value List.mem_cons_self),
      substituteFields_congr rest fun other part member =>
        h other part (List.mem_cons_of_mem _ member)]

end

section Congruence

variable {schema : Schema} {deeper deeper' : TypeRef → Literal → InputPath → Coerced Json}

/-- What a literal is read as depends on its parts, on the defaults of input fields and on the
variables in it. -/
theorem literalAt_congr {scope scope' : Scope} (type : TypeRef) (literal : Literal)
    (path : InputPath)
    (htyped : ∀ name, literal.Holds name → ∀ type path,
      scope.typed name type path = scope'.typed name type path)
    (hraw : ∀ name, literal.Holds name → scope.raw name = scope'.raw name)
    (hparts : ∀ part, part.Inside literal → ∀ type path,
      deeper type part path = deeper' type part path)
    (hdefaults : ∀ part, schema.FieldDefault part → ∀ type path,
      deeper type part path = deeper' type part path) :
    literalAt schema scope deeper type literal path =
      literalAt schema scope' deeper' type literal path := by
  fun_induction literalAt schema scope deeper type literal path with
  | case1 type name path =>
    rw [literalAt, htyped name .here]
  | case2 inner path => rw [literalAt]
  | case3 inner literal path notVar notNull ih =>
    rw [ih htyped hraw hparts, literalAt_nonNull notVar notNull]
  | case4 type path notNonNull =>
    rw [literalAt]
    exact notNonNull
  | case5 item values path =>
    rw [literalAt, items_eq_of_forall fun value member place =>
      hparts value (.item member) item place]
  | case6 item literal path notVar notNull notList =>
    rw [literalAt] <;> assumption
  | case7 scalar literal path notVar notNull value hvalue =>
    rw [literalAt, hvalue] <;> assumption
  | case8 scalar literal path notVar notNull hvalue =>
    rw [literalAt, hvalue] <;> assumption
  | case9 name path type symbol found notVar notNull =>
    simp only [literalAt, found]
  | case10 name path type fields found notVar notNull =>
    simp only [literalAt, found]
    rw [inputFields_eq_of_forall fun field member => ?_]
    refine fieldValue_congr ?_ fun literal default => hdefaults literal
      ⟨name, type, found, field, member, default⟩ field.type
    rw [literalField_eq_match, literalField_eq_match]
    cases given : given? fields field.name with
    | none => rfl
    | some part =>
      have inside := inside_of_given? given
      cases part with
      | var other => simp only [htyped other (.of_inside .here inside)]
      | _ => simp only [hparts _ inside]
  | case11 name path declared literal found notVar notNull =>
    rw [literalAt, literalJson_eq_substitute, literalJson_eq_substitute,
      substitute_congr literal hraw] <;> assumption
  | case12 name path literal notEnum notObject notScalar notVar notNull =>
    rw [literalAt.eq_11] <;> assumption

/-- What a JSON value is read as depends on what is read inside it and on the defaults of input
fields. -/
theorem jsonAt_congr {deeper : TypeRef → Json → InputPath → Coerced Json}
    {default default' : TypeRef → Literal → InputPath → Coerced Json} (type : TypeRef)
    (value : Json) (path : InputPath)
    (hdefaults : ∀ part, schema.FieldDefault part → ∀ type path,
      default type part path = default' type part path) :
    jsonAt schema deeper default type value path =
      jsonAt schema deeper default' type value path := by
  induction type with
  | nonNull inner ih =>
    cases value with
    | null => rfl
    | _ => simpa only [jsonAt] using ih
  | builtin | list => cases value <;> rfl
  | named name =>
    cases found : schema.type? name with
    | none => cases value <;> simp only [jsonAt, found]
    | some target =>
      cases target with
      | inputObject type =>
        cases value with
        | object members =>
          rw [jsonAt_object found, jsonAt_object found, inputFields_eq_of_forall fun field member =>
            fieldValue_congr rfl fun literal default => hdefaults literal
              ⟨name, type, found, field, member, default⟩ field.type]
        | _ => simp only [jsonAt, found]
      | _ => cases value <;> simp only [jsonAt, found]

end Congruence

end Coercion

end GraphQL
