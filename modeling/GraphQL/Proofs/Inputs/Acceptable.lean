import GraphQL.Proofs.Inputs.Limits

/-!
# Acceptable values

Which JSON values a client may supply for an input type, said without regard to how they are read
(`Accepts`), and which parts of a value are supplied for which types (`SuppliedAt`), in the order in
which they are visited (`Visited`). What is read is acceptable, and so are its parts, each of which
is read where it stands (`Coercion.read_of_suppliedAt`).
-/

set_option autoImplicit false

namespace GraphQL

/-- A type without its non-null markers. -/
def TypeRef.unmarked : TypeRef → TypeRef
  | nonNull inner => inner.unmarked
  | type => type

/-- The values that are acceptable for a built-in scalar. -/
def BuiltinScalar.Accepts : BuiltinScalar → Json → Prop
  | .string, .string _ => True
  | .int, .number n => ∃ i, n.toInt? = some i ∧ Json.intMin ≤ i ∧ i ≤ Json.intMax
  | .float, .number _ => True
  | .boolean, .bool _ => True
  | .id, .string _ => True
  | .id, .number (.int _) => True
  | _, _ => False

/-- A value that a client may supply for a type. What is supplied for a declared field of an input
object must be acceptable in turn; a field for which nothing is supplied needs a default, or a type
that may be null. -/
inductive Accepts (schema : Schema) : TypeRef → Json → Prop
  | null {type : TypeRef} (nullable : type.isNonNull = false) : Accepts schema type .null
  | nonNull {inner : TypeRef} {value : Json} (present : value ≠ .null)
    (inside : Accepts schema inner value) : Accepts schema (.nonNull inner) value
  | list {item : TypeRef} {values : List Json} (items : ∀ value ∈ values, Accepts schema item value) :
    Accepts schema (.list item) (.array values)
  | builtin {scalar : BuiltinScalar} {value : Json} (own : scalar.Accepts value) :
    Accepts schema (.builtin scalar) value
  | scalar {name declared : String} {value : Json}
    (found : schema.type? name = some (.scalar declared)) : Accepts schema (.named name) value
  | enum {name symbol : String} {type : EnumType} (found : schema.type? name = some (.enum type))
    (declared : symbol ∈ type.values) : Accepts schema (.named name) (.string symbol)
  | object {name : String} {type : InputObjectType} {members : Json.Object}
    (found : schema.type? name = some (.inputObject type))
    (supplied : ∀ field ∈ type.fields, ∀ value, Json.Object.get? members field.name = some value →
      Accepts schema field.type value)
    (complete : ∀ field ∈ type.fields, Json.Object.get? members field.name = none →
      field.default ≠ none ∨ field.type.isNonNull = false) :
    Accepts schema (.named name) (.object members)

/-- Some steps into a value of a type lead to a part of it, for which some type is declared. -/
inductive SuppliedAt (schema : Schema) :
    TypeRef → Json → List PathElement → TypeRef → Json → Prop
  | here {type : TypeRef} {value : Json} : SuppliedAt schema type value [] type value
  | nonNull {inner type : TypeRef} {value part : Json} {step : PathElement}
    {steps : List PathElement} (inside : SuppliedAt schema inner value (step :: steps) type part) :
    SuppliedAt schema (.nonNull inner) value (step :: steps) type part
  | item {item type : TypeRef} {values : List Json} {i : Nat} {value part : Json}
    {steps : List PathElement} (there : values[i]? = some value)
    (inside : SuppliedAt schema item value steps type part) :
    SuppliedAt schema (.list item) (.array values) (.index i :: steps) type part
  | field {name : String} {object : InputObjectType} {field : InputValueDefinition}
    {members : Json.Object} {type : TypeRef} {value part : Json} {steps : List PathElement}
    (found : schema.type? name = some (.inputObject object)) (declared : field ∈ object.fields)
    (there : Json.Object.get? members field.name = some value)
    (inside : SuppliedAt schema field.type value steps type part) :
    SuppliedAt schema (.named name) (.object members) (.key field.name :: steps) type part

/-- Of two places in values of a type, the first one is visited before the second one: at the first
step in which they differ, it goes into an earlier item, or into a field that is declared
earlier. -/
inductive Visited (schema : Schema) : TypeRef → List PathElement → List PathElement → Prop
  | nonNull {inner : TypeRef} {first second : List PathElement}
    (inside : Visited schema inner first second) : Visited schema (.nonNull inner) first second
  | item {item : TypeRef} {i j : Nat} {first second : List PathElement} (before : i < j) :
    Visited schema (.list item) (.index i :: first) (.index j :: second)
  | insideItem {item : TypeRef} {i : Nat} {first second : List PathElement}
    (inside : Visited schema item first second) :
    Visited schema (.list item) (.index i :: first) (.index i :: second)
  | field {name : String} {object : InputObjectType} {earlier later : InputValueDefinition}
    {i j : Nat} {first second : List PathElement}
    (found : schema.type? name = some (.inputObject object))
    (hearlier : object.fields[i]? = some earlier) (hlater : object.fields[j]? = some later)
    (before : i < j) :
    Visited schema (.named name) (.key earlier.name :: first) (.key later.name :: second)
  | insideField {name : String} {object : InputObjectType} {field : InputValueDefinition}
    {first second : List PathElement} (found : schema.type? name = some (.inputObject object))
    (declared : field ∈ object.fields) (inside : Visited schema field.type first second) :
    Visited schema (.named name) (.key field.name :: first) (.key field.name :: second)

namespace Visited

variable {schema : Schema}

/-- The value itself is neither visited before a place in it nor after one. -/
theorem ne_nil {type : TypeRef} {first second : List PathElement}
    (visited : Visited schema type first second) : first ≠ [] ∧ second ≠ [] := by
  induction visited with
  | nonNull inside ih => exact ih
  | item | insideItem | field | insideField => exact ⟨List.cons_ne_nil _ _, List.cons_ne_nil _ _⟩

/-- Fields with distinct names stand where their names do. -/
theorem index_unique {fields : List InputValueDefinition} (distinct : (fields.map (·.name)).Nodup)
    {i j : Nat} {field other : InputValueDefinition} (hfield : fields[i]? = some field)
    (hother : fields[j]? = some other) (same : field.name = other.name) : i = j := by
  obtain ⟨hi, -⟩ := List.getElem?_eq_some_iff.1 hfield
  refine (List.getElem?_inj (by simpa using hi) distinct).1 ?_
  rw [List.getElem?_map, List.getElem?_map, hfield, hother, Option.map_some, Option.map_some, same]

/-- Inside an input object, fields are visited in the order of their declaration. -/
theorem object_cases {name : String} {object : InputObjectType}
    (found : schema.type? name = some (.inputObject object))
    (distinct : (object.fields.map (·.name)).Nodup) {i j : Nat} {field other : InputValueDefinition}
    (hfield : object.fields[i]? = some field) (hother : object.fields[j]? = some other)
    {first second : List PathElement}
    (visited : Visited schema (.named name) (.key field.name :: first) (.key other.name :: second)) :
    i < j ∨ field = other ∧ Visited schema field.type first second := by
  generalize start : PathElement.key field.name :: first = place at visited
  generalize target : PathElement.key other.name :: second = place' at visited
  cases visited with
  | @field _ own earlier later n m _ _ found' hearlier hlater before =>
    cases found.symm.trans found'
    injection start with here rest
    injection target with there rest'
    injection here with here
    injection there with there
    rw [index_unique distinct hfield hearlier here, index_unique distinct hother hlater there]
    exact .inl before
  | @insideField _ own inner _ _ found' declared inside =>
    cases found.symm.trans found'
    injection start with here rest
    injection target with there rest'
    injection here with here
    injection there with there
    have unique := List.inj_on_of_nodup_map distinct
    obtain rfl := unique (List.mem_of_getElem? hfield) declared here
    obtain rfl := unique (List.mem_of_getElem? hother) declared there
    subst rest rest'
    exact .inr ⟨rfl, inside⟩

end Visited

section Parts

variable {schema : Schema}

/-- A value that a type accepts is accepted by the type without its non-null markers. -/
theorem Accepts.unmarked {type : TypeRef} {value : Json} (accepts : Accepts schema type value) :
    Accepts schema type.unmarked value := by
  induction type with
  | nonNull inner ih =>
    cases accepts with
    | null nullable => cases nullable
    | nonNull present inside => exact ih inside
  | builtin | named | list => exact accepts

/-- The parts of an acceptable value are acceptable. -/
theorem Accepts.of_suppliedAt {type declared : TypeRef} {value part : Json}
    {steps : List PathElement} (accepts : Accepts schema type value)
    (supplied : SuppliedAt schema type value steps declared part) :
    Accepts schema declared part := by
  induction supplied with
  | here => exact accepts
  | nonNull inside ih =>
    cases accepts with
    | null nullable => cases nullable
    | nonNull present inside => exact ih inside
  | item there inside ih =>
    cases accepts with
    | list items => exact ih (items _ (List.mem_of_getElem? there))
  | field found declared there inside ih =>
    cases accepts with
    | scalar found' => cases found.symm.trans found'
    | object found' supplied complete =>
      cases found.symm.trans found'
      exact ih (supplied _ declared _ there)

end Parts

namespace SuppliedAt

variable {schema : Schema} {type listType item last : TypeRef} {value part : Json}
  {values : List Json} {front rest : List PathElement} {i : Nat}

/-- An item of a list is supplied in it. -/
theorem of_item (same : listType.unmarked = .list item) (there : values[i]? = some value)
    (inside : SuppliedAt schema item value rest last part) :
    SuppliedAt schema listType (.array values) (.index i :: rest) last part := by
  induction listType with
  | nonNull inner ih => exact .nonNull (ih same)
  | list =>
    cases same
    exact .item there inside
  | builtin | named => cases same

/-- What an object has for a declared field is supplied in it. -/
theorem of_field {name : String} {object : InputObjectType} {field : InputValueDefinition}
    {members : Json.Object} (same : type.unmarked = .named name)
    (found : schema.type? name = some (.inputObject object)) (declared : field ∈ object.fields)
    (there : Json.Object.get? members field.name = some value)
    (inside : SuppliedAt schema field.type value rest last part) :
    SuppliedAt schema type (.object members) (.key field.name :: rest) last part := by
  induction type with
  | nonNull inner ih => exact .nonNull (ih same)
  | named =>
    cases same
    exact .field found declared there inside
  | builtin | list => cases same

/-- What is supplied in a list is supplied in an item of it. -/
theorem exists_item (same : listType.unmarked = .list item)
    (supplied : SuppliedAt schema listType (.array values) (.index i :: rest) last part) :
    ∃ value, values[i]? = some value ∧ SuppliedAt schema item value rest last part := by
  induction listType with
  | nonNull inner ih =>
    cases supplied with
    | nonNull inside => exact ih same inside
  | list =>
    cases same
    cases supplied with
    | item there inside => exact ⟨_, there, inside⟩
  | builtin | named => cases same

/-- What is supplied in an input object is supplied in what it has for a field. -/
theorem exists_field (distinct : schema.DistinctFields) {name : String} {object : InputObjectType}
    {field : InputValueDefinition} {members : Json.Object}
    (found : schema.type? name = some (.inputObject object)) (declared : field ∈ object.fields)
    (supplied : SuppliedAt schema (.named name) (.object members) (.key field.name :: rest) last
      part) :
    ∃ value, Json.Object.get? members field.name = some value ∧
      SuppliedAt schema field.type value rest last part := by
  generalize start : PathElement.key field.name :: rest = steps at supplied
  cases supplied with
  | here => cases start
  | field found' declared' there inside =>
    cases found.symm.trans found'
    injection start with here rest
    injection here with here
    obtain rfl := List.inj_on_of_nodup_map (distinct _ _ found) declared declared' here
    subst rest
    exact ⟨_, there, inside⟩

/-- A part of a part that is supplied is supplied as a part of the whole. -/
theorem trans {whole : Json} {declared : TypeRef}
    (outside : SuppliedAt schema type value front declared whole)
    (inside : SuppliedAt schema declared whole rest last part) :
    SuppliedAt schema type value (front ++ rest) last part := by
  induction outside with
  | here => exact inside
  | nonNull _ ih => exact .nonNull (ih inside)
  | item there _ ih => exact .item there (ih inside)
  | field found declared there _ ih => exact .field found declared there (ih inside)

/-- What is supplied further inside is supplied in what is supplied on the way. -/
theorem split (distinct : schema.DistinctFields) {whole : Json} {declared : TypeRef}
    (outside : SuppliedAt schema type value front declared whole) {step : PathElement}
    (supplied : SuppliedAt schema type value (front ++ step :: rest) last part) :
    SuppliedAt schema declared whole (step :: rest) last part := by
  induction outside with
  | here => exact supplied
  | nonNull _ ih =>
    cases supplied with
    | nonNull inside => exact ih inside
  | item there _ ih =>
    cases supplied with
    | item there' inside =>
      cases there.symm.trans there'
      exact ih inside
  | field found declared there _ ih =>
    obtain ⟨own, there', inside⟩ := exists_field distinct found declared supplied
    cases there.symm.trans there'
    exact ih inside

/-- What is visited earlier in a part is visited earlier in the whole. -/
theorem visited {whole : Json} {declared : TypeRef}
    (outside : SuppliedAt schema type value front declared whole) {first second : List PathElement}
    (inside : Visited schema declared first second) :
    Visited schema type (front ++ first) (front ++ second) := by
  induction outside with
  | here => exact inside
  | nonNull _ ih => exact .nonNull (ih inside)
  | item _ _ ih => exact .insideItem (ih inside)
  | field found declared _ _ ih => exact .insideField found declared (ih inside)

end SuppliedAt

/-- Earlier items are visited earlier. -/
theorem Visited.of_lt {schema : Schema} {listType item : TypeRef}
    (same : listType.unmarked = .list item) {i j : Nat} (less : i < j)
    (first second : List PathElement) :
    Visited schema listType (.index i :: first) (.index j :: second) := by
  induction listType with
  | nonNull inner ih => exact .nonNull (ih same)
  | list => exact .item less
  | builtin | named => cases same

/-- A path that is joined with a step and goes on is the path that goes on with the step. -/
theorem InputPath.join_append (path : InputPath) (step : PathElement) (steps : List PathElement) :
    path.join step ++ steps = path ++ step :: steps := by
  rw [InputPath.join, List.append_assoc]
  rfl

namespace Coercion

open Checks

variable {schema : Schema}

/-- A built-in scalar is read of what is acceptable for it. -/
theorem accepts_iff_builtinJson? {scalar : BuiltinScalar} {value : Json} :
    scalar.Accepts value ↔ ∃ result, builtinJson? scalar value = some result := by
  cases value with
  | number n =>
    cases scalar with
    | id => cases n <;> simp [BuiltinScalar.Accepts, builtinJson?]
    | _ => simp [BuiltinScalar.Accepts, builtinJson?, Json.int32?, Json.double?]
  | _ =>
    cases scalar <;> simp [BuiltinScalar.Accepts, builtinJson?, Json.int32?, Json.double?]

/-- A field of an object is read only if what the object has for it is. -/
theorem read_of_fieldValue {deeper : TypeRef → Json → InputPath → Coerced Json}
    {default : TypeRef → Literal → InputPath → Coerced Json} {members : Json.Object}
    {path : InputPath} {field : InputValueDefinition} {own : Option Json}
    (read : fieldValue (jsonField deeper members) default path field = .ok own) {value : Json}
    (there : Json.Object.get? members field.name = some value) :
    ∃ result, deeper field.type value (path.join (.key field.name)) = .ok result := by
  obtain ⟨given, here, -⟩ := bind_eq_ok.1 read
  rw [jsonField, there] at here
  obtain ⟨result, here, -⟩ := map_eq_ok.1 here
  exact ⟨result, here⟩

/-- What is read is acceptable, if what is read inside it is. -/
theorem accepts_of_jsonAt {deeper : TypeRef → Json → InputPath → Coerced Json}
    {default : TypeRef → Literal → InputPath → Coerced Json}
    (hdeeper : ∀ type value path result, deeper type value path = .ok result →
      Accepts schema type value)
    {type : TypeRef} {value : Json} {path : InputPath} {result : Json}
    (read : jsonAt schema deeper default type value path = .ok result) :
    Accepts schema type value := by
  fun_induction jsonAt schema deeper default type value path generalizing result with
  | case2 inner value path present ih => exact .nonNull present (ih read)
  | case3 type path notNonNull => exact .null (TypeRef.isNonNull_eq_false notNonNull)
  | case4 item values path =>
    obtain ⟨results, inside, -⟩ := bind_eq_ok.1 read
    refine .list fun value member => ?_
    obtain ⟨place, own, here⟩ := item_of_items inside member
    exact hdeeper item value place own here
  | case6 scalar value path present own hown =>
    exact .builtin (accepts_iff_builtinJson?.2 ⟨own, hown⟩)
  | case8 name path type symbol found =>
    unfold enumSymbol at read
    split at read
    · next declared => exact .enum found (List.contains_iff_mem.1 declared)
    · cases read
  | case9 name path type members found =>
    obtain ⟨own, inside, -⟩ := bind_eq_ok.1 read
    have each : ∀ field ∈ type.fields, ∃ value,
        fieldValue (jsonField deeper members) default path field = .ok value :=
      (inputFields_eq_ok_iff.1 inside).1
    refine .object found (fun field declared value there => ?_) fun field declared missing => ?_
    · obtain ⟨given, here⟩ := each field declared
      obtain ⟨own, here⟩ := read_of_fieldValue here there
      exact hdeeper _ _ _ _ here
    · have leftOut : jsonField deeper members field (path.join (.key field.name)) = .ok none := by
        rw [jsonField, missing]
      obtain ⟨given, here⟩ := each field declared
      -- a field that was left out is filled in by its default, or may be missing
      cases given with
      | none => exact .inr (fieldValue_eq_none_iff.1 here).2.2
      | some value =>
        rcases fieldValue_eq_some_iff.1 here with supplied | ⟨-, literal, default, -⟩
        · cases leftOut.symm.trans supplied
        · exact .inl (default ▸ Option.some_ne_none literal)
  | case10 name path declared value found => exact .scalar found
  | case1 | case5 | case7 | case11 => cases read

/-- What is read is acceptable. -/
theorem accepts_of_coerceJson {levels : Nat} {type : TypeRef} {value : Json} {path : InputPath}
    {result : Json} (read : coerceJson schema levels type value path = .ok result) :
    Accepts schema type value := by
  induction levels generalizing type value path result with
  | zero => cases read
  | succ levels ih => exact accepts_of_jsonAt (fun _ _ _ _ => ih) read

/-- What is one step further in is read with one level less. -/
theorem coerceJson_below (levels : Nat) (type : TypeRef) (part : Json) (path : InputPath)
    (step : PathElement) (steps : List PathElement) :
    coerceJson schema (levels + 1 - (step :: steps).length) type part (path ++ step :: steps) =
      coerceJson schema (levels - steps.length) type part (path.join step ++ steps) := by
  rw [List.length_cons, Nat.add_sub_add_right, InputPath.join_append]

/-- The parts of a value that is read are read where they are. -/
theorem read_of_suppliedAt {levels : Nat} {type declared : TypeRef} {value part : Json}
    {steps : List PathElement} {path : InputPath} {result : Json}
    (read : coerceJson schema levels type value path = .ok result)
    (supplied : SuppliedAt schema type value steps declared part) :
    ∃ own, coerceJson schema (levels - steps.length) declared part (path ++ steps) = .ok own := by
  induction supplied generalizing levels path result with
  | here => exact ⟨result, by rwa [List.append_nil]⟩
  | nonNull inside ih =>
    obtain ⟨rest, rfl, step⟩ := coerceJson_eq_ok_iff.1 read
    exact ih (coerceJson_eq_ok_iff.2 ⟨rest, rfl, jsonAt_inner step⟩)
  | item there inside ih =>
    obtain ⟨rest, rfl, step⟩ := coerceJson_eq_ok_iff.1 read
    obtain ⟨results, step, -⟩ := bind_eq_ok.1 step
    obtain ⟨own, here⟩ := read_of_items step there
    rw [Nat.zero_add] at here
    rw [coerceJson_below]
    exact ih here
  | @field name object field members type value part steps found declared there inside ih =>
    obtain ⟨rest, rfl, step⟩ := coerceJson_eq_ok_iff.1 read
    rw [jsonAt_object found] at step
    obtain ⟨results, step, -⟩ := map_eq_ok.1 step
    obtain ⟨given, here⟩ := (inputFields_eq_ok_iff.1 step).1 _ declared
    obtain ⟨own, here⟩ := read_of_fieldValue here there
    rw [coerceJson_below]
    exact ih here

end Coercion

end GraphQL
