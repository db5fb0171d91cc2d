import GraphQL.Coercion.Basic

/-!
# Literals of declared scalars, part by part

A declared scalar takes any literal. What holds no variable is taken in its JSON form at once, and
the rest part by part (`Coercion.literalJson`). To go through all parts comes to the same
(`Coercion.literalJson_eq_substitute`), so what holds of such literals is shown along their
structure, without a look at the two ways in which a part may be read.
-/

set_option autoImplicit false

namespace GraphQL

namespace Coercion

mutual

/-- A literal of a declared scalar, read part by part. -/
def substitute (raw : String → Coerced Json) : Literal → Coerced Json
  | .var name => raw name
  | .list items => do return .array (← substituteItems raw items)
  | .object fields => do return .object (Json.Object.ofList (← substituteFields raw fields))
  | .null => .ok .null
  | .bool b => .ok (.bool b)
  | .int text => .ok ((Literal.numberJson? text).getD .null)
  | .float text => .ok ((Literal.floatJson? text).getD .null)
  | .string s => .ok (.string s)
  | .enum symbol => .ok (.string symbol)

/-- The items of a list of a declared scalar, read part by part. -/
def substituteItems (raw : String → Coerced Json) : List Literal → Coerced (List Json)
  | [] => .ok []
  | item :: rest => do
    let item ← substitute raw item
    let rest ← substituteItems raw rest
    return item :: rest

/-- The fields of an object of a declared scalar, read part by part. -/
def substituteFields (raw : String → Coerced Json) :
    List (String × Literal) → Coerced (List (String × Json))
  | [] => .ok []
  | (name, value) :: rest => do
    let value ← substitute raw value
    let rest ← substituteFields raw rest
    return (name, value) :: rest

end

variable {raw : String → Coerced Json}

mutual

/-- A literal that has a JSON form is read as that, part by part. -/
theorem substitute_of_toJson? :
    (literal : Literal) → {value : Json} → literal.toJson? = some value →
      substitute raw literal = .ok value
  | .var name, _, form => by
    rw [Literal.toJson?] at form
    cases form
  | .list items, _, form => by
    rw [Literal.toJson?] at form
    obtain ⟨values, inside, rfl⟩ := Option.map_eq_some_iff.1 form
    rw [substitute, substituteItems_of_toJson? items inside]
    rfl
  | .object fields, _, form => by
    rw [Literal.toJson?] at form
    obtain ⟨members, inside, rfl⟩ := Option.map_eq_some_iff.1 form
    rw [substitute, substituteFields_of_toJson? fields inside]
    rfl
  | .int text, _, form | .float text, _, form => by
    rw [Literal.toJson?] at form
    rw [substitute, form]
    rfl
  | .null, _, form | .bool _, _, form | .string _, _, form | .enum _, _, form => by
    rw [Literal.toJson?] at form
    cases form
    rw [substitute]

/-- Items that have a JSON form are filled to it, whatever the variables stand for. -/
theorem substituteItems_of_toJson? :
    (items : List Literal) → {values : List Json} → Literal.itemsToJson? items = some values →
      substituteItems raw items = .ok values
  | [], _, form => by
    cases form
    rw [substituteItems]
  | item :: rest, _, form => by
    rw [Literal.itemsToJson?] at form
    obtain ⟨value, here, form⟩ := Option.bind_eq_some_iff.1 form
    obtain ⟨values, later, same⟩ := Option.bind_eq_some_iff.1 form
    cases same
    rw [substituteItems, substitute_of_toJson? item here, substituteItems_of_toJson? rest later]
    rfl

/-- Fields that have a JSON form are filled to it, whatever the variables stand for. -/
theorem substituteFields_of_toJson? :
    (fields : List (String × Literal)) → {members : Json.Object} →
      Literal.fieldsToJson? fields = some members → substituteFields raw fields = .ok members
  | [], _, form => by
    cases form
    rw [substituteFields]
  | (name, value) :: rest, _, form => by
    rw [Literal.fieldsToJson?] at form
    obtain ⟨value, here, form⟩ := Option.bind_eq_some_iff.1 form
    obtain ⟨members, later, same⟩ := Option.bind_eq_some_iff.1 form
    cases same
    rw [substituteFields, substitute_of_toJson? _ here, substituteFields_of_toJson? rest later]
    rfl

end

/-- A literal that has a JSON form is taken in it. -/
theorem literalJson_of_toJson? {literal : Literal} {value : Json}
    (form : literal.toJson? = some value) : literalJson raw literal = .ok value := by
  rw [literalJson.eq_def, form]

mutual

/-- Whether a part is taken in its JSON form or gone through makes no difference. -/
theorem literalJson_eq_substitute :
    (literal : Literal) → literalJson raw literal = substitute raw literal
  | .list items => by
    cases form : (Literal.list items).toJson? with
    | some value => rw [literalJson_of_toJson? form, substitute_of_toJson? _ form]
    | none =>
      simp only [literalJson.eq_def raw (.list items), form, substitute,
        itemsJson_eq_substituteItems items]
  | .object fields => by
    cases form : (Literal.object fields).toJson? with
    | some value => rw [literalJson_of_toJson? form, substitute_of_toJson? _ form]
    | none =>
      simp only [literalJson.eq_def raw (.object fields), form, substitute,
        fieldsJson_eq_substituteFields fields]
  | .int text => by
    rw [literalJson.eq_def, Literal.toJson?, substitute]
    cases Literal.numberJson? text <;> rfl
  | .float text => by
    rw [literalJson.eq_def, Literal.toJson?, substitute]
    cases Literal.floatJson? text <;> rfl
  | .null | .var _ | .bool _ | .string _ | .enum _ => by
    rw [literalJson.eq_def, Literal.toJson?, substitute]

/-- The JSON of items is what filling them comes to. -/
theorem itemsJson_eq_substituteItems :
    (items : List Literal) → itemsJson raw items = substituteItems raw items
  | [] => by
    rw [itemsJson, substituteItems]
  | item :: rest => by
    rw [itemsJson, substituteItems, literalJson_eq_substitute item,
      itemsJson_eq_substituteItems rest]

/-- The JSON of fields is what filling them comes to. -/
theorem fieldsJson_eq_substituteFields :
    (fields : List (String × Literal)) → fieldsJson raw fields = substituteFields raw fields
  | [] => by
    rw [fieldsJson, substituteFields]
  | (name, value) :: rest => by
    rw [fieldsJson, substituteFields, literalJson_eq_substitute value,
      fieldsJson_eq_substituteFields rest]

end

end Coercion

end GraphQL
