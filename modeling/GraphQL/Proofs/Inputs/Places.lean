import GraphQL.Proofs.Inputs.Constants

/-!
# Places of a value

The places of a value that a type gives a type: the value itself, the items of lists and the members
of input objects, at any depth. What a declared scalar holds has no types and so no places. A value
fits some number of levels if none of its places lies as deep. Of what is read, each part was read
itself: of a part of the literal or value, of the default of a field or of a variable.
-/

set_option autoImplicit false

namespace GraphQL

/-- A value stands directly inside another one: as an item of a list or in a field of an input
object. -/
inductive InputPart (schema : Schema) : TypeRef → Json → TypeRef → Json → Prop
  | item {item : TypeRef} {values : List Json} {value : Json} (member : value ∈ values) :
    InputPart schema (.list item) (.array values) item value
  | field {name : String} {type : InputObjectType} {field : InputValueDefinition}
    {members : Json.Object} {value : Json} (found : schema.type? name = some (.inputObject type))
    (declared : field ∈ type.fields) (member : (field.name, value) ∈ members) :
    InputPart schema (.named name) (.object members) field.type value

/-- A value of a type holds a value of some type, inside that many lists and input objects. -/
inductive InputHolds (schema : Schema) : TypeRef → Json → Nat → TypeRef → Json → Prop
  | here {type : TypeRef} {value : Json} : InputHolds schema type value 0 type value
  | nonNull {inner type : TypeRef} {whole value : Json} {depth : Nat}
    (inside : InputHolds schema inner whole depth type value) :
    InputHolds schema (.nonNull inner) whole depth type value
  | deeper {outer inner type : TypeRef} {whole part value : Json} {depth : Nat}
    (directly : InputPart schema outer whole inner part)
    (inside : InputHolds schema inner part depth type value) :
    InputHolds schema outer whole (depth + 1) type value

/-- No place of a value lies inside as many lists and input objects. -/
def InputFits (schema : Schema) (levels : Nat) (type : TypeRef) (value : Json) : Prop :=
  ∀ depth inner part, InputHolds schema type value depth inner part → depth < levels

section Fits

variable {schema : Schema} {levels : Nat} {type : TypeRef} {value : Json}

/-- Where no levels are left nothing fits. -/
theorem not_inputFits_zero : ¬ InputFits schema 0 type value :=
  fun fits => absurd (fits 0 type value .here) (Nat.lt_irrefl 0)

/-- A non-null marker takes no level. -/
theorem inputFits_nonNull_iff {inner : TypeRef} :
    InputFits schema levels (.nonNull inner) value ↔ InputFits schema levels inner value := by
  constructor
  · exact fun fits depth type part holds => fits depth type part (.nonNull holds)
  · rintro fits depth type part (_ | inside | ⟨⟨⟩, -⟩)
    · exact fits 0 inner value .here
    · exact fits depth type part inside

/-- A value that is no non-null one fits if each of its parts fits one level less. -/
theorem inputFits_succ_iff (nullable : type.isNonNull = false) :
    InputFits schema (levels + 1) type value ↔
      ∀ inner part, InputPart schema type value inner part →
        InputFits schema levels inner part := by
  constructor
  · intro fits inner part directly depth last place holds
    exact Nat.lt_of_succ_lt_succ (fits (depth + 1) last place (.deeper directly holds))
  · rintro fits depth last place (_ | inside | ⟨directly, inside⟩)
    · exact Nat.succ_pos levels
    · cases nullable
    · exact Nat.succ_lt_succ (fits _ _ directly _ _ _ inside)

/-- A value without parts fits one level. -/
theorem inputFits_of_no_part (nullable : type.isNonNull = false)
    (alone : ∀ inner part, ¬ InputPart schema type value inner part) :
    InputFits schema (levels + 1) type value :=
  (inputFits_succ_iff nullable).2 fun inner part directly => absurd directly (alone inner part)

end Fits

namespace Schema

/-- The fields of each input object have distinct names. -/
def DistinctFields (schema : Schema) : Prop :=
  ∀ name type, schema.type? name = some (.inputObject type) → (type.fields.map (·.name)).Nodup

variable {schema : Schema} {limit : Nat} {text : String}

/-- The parts of each type of an accepted schema have distinct names. -/
theorem distinctParts_of_parseWithin (accepted : parseWithin limit text = .ok schema)
    {type : TypeDefinition} (member : type ∈ schema.types) : type.DistinctParts := by
  obtain ⟨source, -, wellFormed, rfl⟩ :=
    (parseWithin_ok_iff_wellFormedSchema limit text schema).1 accepted
  rcases mem_schema_types_iff.1 member with ⟨scalar, rfl⟩ | declared
  · trivial
  · exact wellFormed.distinctParts type declared

/-- The fields of the input objects of an accepted schema have distinct names. -/
theorem distinctFields_of_parseWithin (accepted : parseWithin limit text = .ok schema) :
    schema.DistinctFields :=
  fun _ _ found => distinctParts_of_parseWithin accepted (mem_of_type? found).1

end Schema

namespace Coercion

open Checks

variable {schema : Schema}

section Members

variable {supplied : InputValueDefinition → InputPath → Coerced (Option Json)}
  {default : TypeRef → Literal → InputPath → Coerced Json} {path : InputPath}

/-- The member under the name of a field is what the field was read as. -/
theorem fieldValue_of_member {fields : List InputValueDefinition}
    (distinct : (fields.map (·.name)).Nodup) {members : Json.Object}
    (read : inputFields supplied default path fields = .ok members)
    {field : InputValueDefinition} (declared : field ∈ fields) {value : Json}
    (member : (field.name, value) ∈ members) :
    fieldValue supplied default path field = .ok (some value) := by
  obtain ⟨-, rfl⟩ := inputFields_eq_ok_iff.1 read
  obtain ⟨other, declared', given⟩ := List.mem_filterMap.1 member
  obtain ⟨same, found⟩ := member?_eq_some_iff.1 given
  rwa [List.inj_on_of_nodup_map distinct declared' declared same] at found

end Members

section Literals

variable {scope : Scope} {deeper : TypeRef → Literal → InputPath → Coerced Json}

/-- What is read at a non-null type of a literal that is no variable is read at the type inside. -/
theorem literalAt_inner {inner : TypeRef} {literal : Literal} {path : InputPath} {value : Json}
    (notVar : ∀ name, literal ≠ .var name)
    (read : literalAt schema scope deeper (.nonNull inner) literal path = .ok value) :
    literalAt schema scope deeper inner literal path = .ok value := by
  have notNull : literal ≠ .null := by
    rintro rfl
    rw [literalAt] at read
    cases read
  rwa [literalAt_nonNull notVar notNull] at read

/-- A part of what a literal that is no variable was read as was read itself: of a part of the
literal, of the default of a field or of a variable. -/
theorem literalAt_part (distinct : schema.DistinctFields) {outer inner : TypeRef}
    {literal : Literal} {path : InputPath} {whole part : Json}
    (notVar : ∀ name, literal ≠ .var name)
    (read : literalAt schema scope deeper outer literal path = .ok whole)
    (directly : InputPart schema outer whole inner part) :
    (∃ source place, (source.Inside literal ∨ schema.FieldDefault source) ∧
        deeper inner source place = .ok part) ∨
      ∃ name place given, (Literal.var name).Inside literal ∧
        scope.typed name inner place = .ok given ∧ given.getD .null = part := by
  cases directly with
  | item member =>
    cases literal with
    | list values =>
      rw [literalAt] at read
      obtain ⟨results, read, same⟩ := bind_eq_ok.1 read
      cases same
      obtain ⟨source, inside, place, read⟩ := exists_value_of_items read member
      exact .inl ⟨source, place, .inl (.item inside), read⟩
    | var name => exact absurd rfl (notVar name)
    | _ => cases read
  | @field name type field members _ found declared member =>
    cases literal with
    | object fields =>
      rw [literalAt_object found] at read
      obtain ⟨results, read, same⟩ := map_eq_ok.1 read
      cases same
      -- what a field holds was supplied, by a variable or another literal, or it is the default
      rcases fieldValue_eq_some_iff.1 (fieldValue_of_member (distinct name type found) read declared
        member) with supplied | ⟨-, source, default, read⟩
      · rw [literalField_eq_match] at supplied
        split at supplied
        · cases supplied
        · next other given =>
          obtain ⟨value, typed, supplied⟩ := bind_eq_ok.1 supplied
          refine .inr ⟨other, _, value, inside_of_given? given, typed, ?_⟩
          cases value with
          | some value =>
            cases supplied
            rfl
          | none =>
            simp only at supplied
            split at supplied
            · cases supplied
            · cases supplied
              rfl
        · next source _ given =>
          obtain ⟨value, read, same⟩ := map_eq_ok.1 supplied
          cases same
          exact .inl ⟨source, _, .inl (inside_of_given? given), read⟩
      · exact .inl ⟨source, _, .inr ⟨name, type, found, field, declared, default⟩, read⟩
    | var name => exact absurd rfl (notVar name)
    | null =>
      rw [literalAt] at read
      · cases read
      · exact fun inner => TypeRef.noConfusion
    | _ => simp [literalAt, found] at read

/-- What was read as a constant was no variable. -/
theorem ne_var_of_coerceConstant {levels : Nat} {type : TypeRef} {literal : Literal}
    {path : InputPath} {value : Json}
    (read : coerceConstant schema levels type literal path = .ok value) (name : String) :
    literal ≠ .var name := by
  rintro rfl
  obtain ⟨rest, rfl, step⟩ := coerceConstant_eq_ok_iff.1 read
  rw [literalAt] at step
  cases step

end Literals

section Values

variable {deeper : TypeRef → Json → InputPath → Coerced Json}
  {default : TypeRef → Literal → InputPath → Coerced Json}

/-- What is read at a non-null type of a JSON value is read at the type inside. -/
theorem jsonAt_inner {inner : TypeRef} {given : Json} {path : InputPath} {value : Json}
    (read : jsonAt schema deeper default (.nonNull inner) given path = .ok value) :
    jsonAt schema deeper default inner given path = .ok value := by
  cases given with
  | null => cases read
  | _ => exact read

/-- A part of what a JSON value was read as was read itself: of a part of the value, or of the
default of a field. -/
theorem jsonAt_part (distinct : schema.DistinctFields) {outer inner : TypeRef} {given : Json}
    {path : InputPath} {whole part : Json}
    (read : jsonAt schema deeper default outer given path = .ok whole)
    (directly : InputPart schema outer whole inner part) :
    (∃ source place, deeper inner source place = .ok part) ∨
      ∃ source place, schema.FieldDefault source ∧ default inner source place = .ok part := by
  cases directly with
  | item member =>
    cases given with
    | array values =>
      obtain ⟨results, read, same⟩ := bind_eq_ok.1 read
      cases same
      obtain ⟨source, -, place, read⟩ := exists_value_of_items read member
      exact .inl ⟨source, place, read⟩
    | _ => cases read
  | @field name type field members _ found declared member =>
    cases given with
    | object values =>
      rw [jsonAt_object found] at read
      obtain ⟨results, read, same⟩ := map_eq_ok.1 read
      cases same
      rcases fieldValue_eq_some_iff.1 (fieldValue_of_member (distinct name type found) read declared
        member) with supplied | ⟨-, source, default, read⟩
      · unfold jsonField at supplied
        split at supplied
        · next source _ =>
          obtain ⟨value, read, same⟩ := map_eq_ok.1 supplied
          cases same
          exact .inl ⟨source, _, read⟩
        · cases supplied
      · exact .inr ⟨source, _, ⟨name, type, found, field, declared, default⟩, read⟩
    | null => cases read
    | _ => simp [jsonAt, found] at read

end Values

end Coercion

end GraphQL
