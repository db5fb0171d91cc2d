import GraphQL.Proofs.Inputs.Agreement
import GraphQL.Proofs.Inputs.Numerals
import GraphQL.Proofs.Inputs.References

/-!
# The JSON form of a literal

A literal without variables has a JSON form, in which enum symbols are strings and numerals are
numbers. Where no declared scalar is met, the form is read to the same value as the literal,
although numerals, symbols and objects look different in JSON
(`Coercion.coerceJson_of_coerceLiteral`). A declared scalar takes a literal for what its form is, so
that nothing is compared there; but it is the only type at which a numeral beyond all doubles, whose
form is null, is read at all.
-/

set_option autoImplicit false

namespace GraphQL

open Relation (ReflTransGen)

namespace Literal

/-- A literal without variables as documents write it: objects name each field once, integers are
in canonical form and fit in 64 bits, and other numerals follow the grammar. -/
inductive Written : Literal → Prop
  | null : Written .null
  | bool {b : Bool} : Written (.bool b)
  | int {i : Int} (fits : Decimal.fitsSigned i = true) : Written (.int (toString i))
  | float {text : String} (h : Decimal.FloatText text) : Written (.float text)
  | string {s : String} : Written (.string s)
  | enum {symbol : String} : Written (.enum symbol)
  | list {items : List Literal} (h : ∀ item ∈ items, Written item) : Written (.list items)
  | object {fields : List (String × Literal)} (distinct : (fields.map Prod.fst).Nodup)
    (h : ∀ field ∈ fields, Written field.2) : Written (.object fields)

/-- A literal that is written out is no variable. -/
theorem Written.ne_var {literal : Literal} (written : literal.Written) (name : String) :
    literal ≠ .var name := by
  rintro rfl
  cases written

/-- The JSON form of the text of an integer is the integer. -/
theorem numberJson?_toString {i : Int} (fits : Decimal.fitsSigned i = true) :
    numberJson? (toString i) = some (.ofInt i) := by
  rw [numberJson?, Decimal.intOfText?_toString, Option.filter_some, if_pos fits]

/-- The forms of the items of a list are those of each. -/
theorem itemsToJson?_eq_some_iff {items : List Literal} {values : List Json} :
    itemsToJson? items = some values ↔
      List.Forall₂ (fun item value => item.toJson? = some value) items values := by
  induction items generalizing values with
  | nil => simp [itemsToJson?, eq_comm]
  | cons item rest ih =>
    simp only [itemsToJson?, Option.bind_eq_bind, Option.bind_eq_some_iff, ih,
      List.forall₂_cons_left_iff, Option.some.injEq]
    constructor
    · rintro ⟨value, here, others, later, rfl⟩
      exact ⟨value, others, here, later, rfl⟩
    · rintro ⟨value, others, here, later, rfl⟩
      exact ⟨value, here, others, later, rfl⟩

/-- The forms of the fields of an object are those of each, under its name. -/
theorem fieldsToJson?_eq_some_iff {fields : List (String × Literal)} {members : Json.Object} :
    fieldsToJson? fields = some members ↔
      List.Forall₂ (fun field member => field.1 = member.1 ∧ field.2.toJson? = some member.2) fields
        members := by
  induction fields generalizing members with
  | nil => simp [fieldsToJson?, eq_comm]
  | cons field rest ih =>
    obtain ⟨name, literal⟩ := field
    simp only [fieldsToJson?, Option.bind_eq_bind, Option.bind_eq_some_iff, ih,
      List.forall₂_cons_left_iff, Option.some.injEq]
    constructor
    · rintro ⟨value, here, others, later, rfl⟩
      exact ⟨(name, value), others, ⟨rfl, here⟩, later, rfl⟩
    · rintro ⟨⟨_, value⟩, others, ⟨rfl, here⟩, later, rfl⟩
      exact ⟨value, here, others, later, rfl⟩

/-- A list has a form if its items have. -/
theorem exists_itemsToJson? {items : List Literal}
    (h : ∀ item ∈ items, ∃ value, item.toJson? = some value) :
    ∃ values, itemsToJson? items = some values := by
  choose! form hform using h
  refine ⟨items.map form, ?_⟩
  rw [itemsToJson?_eq_some_iff, List.forall₂_map_right_iff, List.forall₂_same]
  exact hform

/-- An object has a form if the values of its fields have. -/
theorem exists_fieldsToJson? {fields : List (String × Literal)}
    (h : ∀ field ∈ fields, ∃ value, field.2.toJson? = some value) :
    ∃ members, fieldsToJson? fields = some members := by
  choose! form hform using h
  refine ⟨fields.map fun field => (field.1, form field), ?_⟩
  rw [fieldsToJson?_eq_some_iff, List.forall₂_map_right_iff, List.forall₂_same]
  exact fun field member => ⟨rfl, hform field member⟩

/-- The text of a float has a JSON form. -/
theorem exists_floatJson? {text : String} (h : Decimal.FloatText text) :
    ∃ value, floatJson? text = some value := by
  obtain ⟨d, read⟩ := h.exists_ofText?
  exact ⟨.ofDecimal d, by rw [floatJson?, read]; rfl⟩

/-- A literal without variables has a JSON form. -/
theorem Written.exists_toJson? {literal : Literal} (written : literal.Written) :
    ∃ value, literal.toJson? = some value := by
  induction written with
  | null | bool | string | enum => exact ⟨_, rfl⟩
  | int fits => exact ⟨_, numberJson?_toString fits⟩
  | float h => exact exists_floatJson? h
  | list h ih =>
    obtain ⟨values, forms⟩ := exists_itemsToJson? ih
    exact ⟨.array values, by rw [toJson?, forms]; rfl⟩
  | object distinct h ih =>
    obtain ⟨members, forms⟩ := exists_fieldsToJson? ih
    exact ⟨_, by rw [toJson?, forms]; rfl⟩

end Literal

namespace Json.Object

/-- A new key goes last. -/
theorem insert_of_not_mem {key : String} {value : Json} {o : Object} (new : key ∉ o.keys) :
    insert key value o = o ++ [(key, value)] := by
  induction o with
  | nil => rfl
  | cons member rest ih =>
    obtain ⟨other, later⟩ := not_or.1 (mt List.mem_cons.2 new)
    rw [insert, if_neg (by simpa using Ne.symm other), ih later, List.cons_append]

/-- Members with distinct keys are written as they are. -/
theorem ofList_of_nodup {members : Object} (distinct : members.keys.Nodup) :
    ofList members = members := by
  -- what is written first stays in front of what is still to come
  have step : ∀ (rest written : Object), (keys (written ++ rest)).Nodup →
      rest.foldl (fun o member => insert member.1 member.2 o) written = written ++ rest := by
    intro rest
    induction rest with
    | nil => exact fun written _ => (List.append_nil written).symm
    | cons member rest ih =>
      intro written distinct
      have new : member.1 ∉ keys written := by
        rw [keys, List.map_append, List.nodup_append] at distinct
        exact fun known => distinct.2.2 _ known _ List.mem_cons_self rfl
      rw [List.foldl_cons, insert_of_not_mem new, ih]
      · simp
      · simpa using distinct
  exact step members [] distinct

end Json.Object

namespace Schema

variable {schema : Schema}

/-- No declared scalar is met where a value is read at a type. -/
def ScalarFree (schema : Schema) (type : TypeRef) : Prop :=
  ∀ name declared, ReflTransGen schema.ReadsAt type (.named name) →
    schema.type? name ≠ some (.scalar declared)

/-- What a type without custom scalars reads at other types is free of them too. -/
theorem ScalarFree.of_readsAt {outer inner : TypeRef} (free : schema.ScalarFree outer)
    (reads : schema.ReadsAt outer inner) : schema.ScalarFree inner :=
  fun name declared later => free name declared (.head reads later)

end Schema

namespace Coercion

open Checks Literal

section Scalars

/-- The nearest double of an integer is what its text is read as. -/
theorem nearest_of_doubleText? {i : Int} {d : Double} (read : doubleText? (toString i) = some d) :
    d = .nearest i := by
  rw [doubleText?, Decimal.ofText?_toString] at read
  exact Double.eq_nearest_of_ofDecimal? read

/-- A built-in scalar that is read of a literal is read of its form. -/
theorem builtinJson?_of_builtinLiteral? {scalar : BuiltinScalar} {literal : Literal}
    (written : literal.Written) {value : Json} (form : literal.toJson? = some value)
    {result : Json} (read : builtinLiteral? scalar literal = some result) :
    builtinJson? scalar value = some result := by
  cases written with
  | null | list | object => cases scalar <;> cases read
  | bool | string | enum => cases form; cases scalar <;> first | exact read | cases read
  | @int i fits =>
    rw [toJson?, numberJson?_toString fits] at form
    cases form
    cases scalar with
    | string | boolean => cases read
    | id => exact read
    | int =>
      rw [builtinLiteral?, int32Text?, Decimal.intOfText?_toString] at read
      exact read
    | float =>
      obtain ⟨d, found, rfl⟩ := Option.map_eq_some_iff.1 read
      rw [nearest_of_doubleText? found]
      rfl
  | @float text h =>
    cases scalar with
    | float =>
      obtain ⟨d, found, rfl⟩ := Option.map_eq_some_iff.1 read
      obtain ⟨decimal, spelled, finite⟩ := Option.bind_eq_some_iff.1 found
      rw [toJson?, floatJson?, spelled, Option.map_some, Json.ofDecimal, finite] at form
      cases form
      rfl
    | _ => cases read

end Scalars

section Members

variable {fields : List (String × Literal)} {members : Json.Object}

/-- Members that go with the fields of an object one by one do so under every name. -/
theorem get?_of_given? (related : Literal → Json → Prop)
    (same : List.Forall₂ (fun field member => field.1 = member.1 ∧ related field.2 member.2) fields
      members) (name : String) :
    (given? fields name = none ∧ Json.Object.get? members name = none) ∨
      ∃ literal value, given? fields name = some literal ∧
        Json.Object.get? members name = some value ∧ related literal value := by
  induction same with
  | nil => exact .inl ⟨rfl, rfl⟩
  | @cons field member fields members here _ ih =>
    obtain ⟨key, form⟩ := here
    by_cases found : field.1 = name
    · refine .inr ⟨field.2, member.2, ?_, ?_, form⟩
      · simp [given?, found]
      · rw [Json.Object.get?_cons, if_pos (key ▸ found)]
    · have skipped : given? (field :: fields) name = given? fields name := by simp [given?, found]
      rw [skipped, Json.Object.get?_cons, if_neg (key ▸ found)]
      exact ih

end Members

variable {schema : Schema}

/-- What a field of an object literal is read as, it is read as in the form of the object, if its
value is. -/
theorem jsonField_of_literalField {scope : Scope}
    {deeper : TypeRef → Literal → InputPath → Coerced Json}
    {deeper' : TypeRef → Json → InputPath → Coerced Json} {field : InputValueDefinition}
    {fields : List (String × Literal)} {members : Json.Object}
    (same : List.Forall₂ (fun field member => field.1 = member.1 ∧
      field.2.Written ∧ field.2.toJson? = some member.2) fields members)
    (hdeeper : ∀ literal value, literal.Written → literal.toJson? = some value →
      ∀ place result, deeper field.type literal place = .ok result →
        deeper' field.type value place = .ok result) {path : InputPath} {result : Option Json}
    (read : literalField scope deeper fields field path = .ok result) :
    jsonField deeper' members field path = .ok result := by
  rcases get?_of_given? (fun literal value => literal.Written ∧ literal.toJson? = some value) same
    field.name with ⟨leftOut, missing⟩ | ⟨literal, member, given, there, written, form⟩
  · rw [literalField_eq_match, leftOut] at read
    rw [jsonField, missing]
    exact read
  · rw [literalField_of_given given written.ne_var] at read
    obtain ⟨own, read, same⟩ := map_eq_ok.1 read
    rw [jsonField, there]
    exact map_eq_ok.2 ⟨own, hdeeper literal member written form path own read, same⟩

/-- The form of a literal is read as the literal is, if the parts are. It is null only if the
literal is. -/
theorem jsonAt_of_literalAt {scope : Scope} {deeper : TypeRef → Literal → InputPath → Coerced Json}
    {deeper' : TypeRef → Json → InputPath → Coerced Json}
    {default : TypeRef → Literal → InputPath → Coerced Json}
    (hdeeper : ∀ type, schema.ScalarFree type → ∀ literal value, literal.Written →
      literal.toJson? = some value → ∀ place result, deeper type literal place = .ok result →
      deeper' type value place = .ok result)
    (hdefault : ∀ literal, schema.FieldDefault literal → ∀ type place result,
      deeper type literal place = .ok result → default type literal place = .ok result)
    {type : TypeRef} (free : schema.ScalarFree type) {literal : Literal} (written : literal.Written)
    {value : Json} (form : literal.toJson? = some value) {path : InputPath} {result : Json}
    (read : literalAt schema scope deeper type literal path = .ok result) :
    jsonAt schema deeper' default type value path = .ok result ∧
      (literal ≠ .null → value ≠ .null) := by
  fun_induction literalAt schema scope deeper type literal path generalizing value result with
  | case1 => cases written
  | case3 inner literal path notVar notNull ih =>
    obtain ⟨inside, present⟩ := ih (free.of_readsAt .nonNull) written form read
    exact ⟨(jsonAt_nonNull (present notNull) path).trans inside, present⟩
  | case4 type path notNonNull =>
    cases form
    refine ⟨?_, fun present => absurd rfl present⟩
    rw [jsonAt]
    · exact read
    · exact notNonNull
  | case5 item literals path =>
    obtain ⟨values, forms, rfl⟩ := Option.map_eq_some_iff.1 form
    obtain ⟨results, inside, same⟩ := bind_eq_ok.1 read
    cases written with
    | list h =>
    have related := (List.forall₂_and_left _ _).2 ⟨h, itemsToJson?_eq_some_iff.1 forms⟩
    refine ⟨?_, fun _ => Json.noConfusion⟩
    rw [jsonAt, items_agree (fun literal value own place result =>
      hdeeper item (free.of_readsAt .item) literal value own.1 own.2 place result) related inside]
    exact same
  | case7 scalar literal path notVar notNull own hown =>
    have inside := builtinJson?_of_builtinLiteral? written form hown
    cases value with
    | null => cases scalar <;> cases inside
    | _ =>
      refine ⟨?_, fun _ => Json.noConfusion⟩
      simp only [jsonAt, inside]
      exact read
  | case9 name path type symbol found notVar notNull =>
    cases form
    refine ⟨?_, fun _ => Json.noConfusion⟩
    simp only [jsonAt, found]
    exact read
  | case10 name path type fields found notVar notNull =>
    obtain ⟨members, forms, rfl⟩ := Option.map_eq_some_iff.1 form
    obtain ⟨own, inside, same⟩ := bind_eq_ok.1 read
    cases written with
    | object distinct h =>
    have forms := fieldsToJson?_eq_some_iff.1 forms
    -- the form has the same keys as the literal, so that no member hides another one
    have keys : (Json.Object.keys members).Nodup := by
      rw [Json.Object.keys, ← map_eq_map_of_forall₂ (fun _ _ both => both.1) forms]
      exact distinct
    refine ⟨?_, fun _ => Json.noConfusion⟩
    rw [jsonAt_object found, Json.Object.ofList_of_nodup keys]
    refine map_eq_ok.2 ⟨own, inputFields_agree (fun field declared value => ?_) inside, ?_⟩
    · refine fieldValue_agree (fun value => ?_) fun literal given =>
        hdefault literal ⟨name, type, found, field, declared, given⟩ field.type
      have same := ((List.forall₂_and_left _ _).2 ⟨h, forms⟩).imp
        fun field member all => And.intro all.2.1 (And.intro all.1 all.2.2)
      exact jsonField_of_literalField same (hdeeper field.type (free.of_readsAt (.field found declared)))
    · cases same
      rfl
  | case11 name path declared literal found notVar notNull =>
    exact absurd found (free name declared .refl)
  | case2 | case6 | case8 | case12 => cases read

/-- What a literal is read as, its form is read as, with as many levels and at the same place. -/
theorem coerceJson_of_coerceLiteral (constants : schema.ConstantDefaults) (vars : Variables)
    {levels : Nat} {type : TypeRef} (free : schema.ScalarFree type) {literal : Literal}
    (written : literal.Written) {value : Json} (form : literal.toJson? = some value)
    {path : InputPath} {result : Json}
    (read : coerceLiteral schema vars levels type literal path = .ok result) :
    coerceJson schema levels type value path = .ok result := by
  induction levels generalizing type literal value path result with
  | zero => cases read
  | succ levels ih =>
    refine (jsonAt_of_literalAt ?_ ?_ free written form read).1
    · exact fun type free literal value written form place result => ih free written form
    · intro literal default type place result own
      rwa [coerceLiteral_eq_coerceConstant constants vars levels type
        (constants.fieldDefault default)] at own

end Coercion

end GraphQL
