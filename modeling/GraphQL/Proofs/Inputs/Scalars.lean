import Mathlib
import GraphQL.Proofs.Inputs.Sources

/-!
# Nulls in declared scalars

A declared scalar takes any literal as it is. Of those that are neither null nor a variable, only
numerals beyond the range of numbers become null (`Coercion.substitute_eq_null_iff`). At a non-null
declared scalar such a numeral in play is the one source of a null, wherever the value stands and
whatever it was read of (`Coercion.null_at_nonNull_scalar`).
-/

set_option autoImplicit false

namespace GraphQL

open Coercion Checks

/-- A numeral that is no integer of 64 bits, and to which no finite double is near. -/
inductive Literal.BeyondRange : Literal → Prop
  | int {text : String} (large : (Decimal.intOfText? text).filter Decimal.fitsSigned = none)
    (infinite : doubleText? text = none) : BeyondRange (.int text)
  | float {text : String} (infinite : doubleText? text = none) : BeyondRange (.float text)

namespace Coercion

/-- A decimal is null as JSON if no finite double is near it. -/
theorem getD_ofDecimal_eq_null_iff {text : String} :
    ((Decimal.ofText? text).map Json.ofDecimal).getD .null = .null ↔ doubleText? text = none := by
  unfold doubleText?
  cases Decimal.ofText? text with
  | none => simp
  | some decimal =>
    simp only [Option.map_some, Option.getD_some, Option.bind_some, Json.ofDecimal]
    cases Double.ofDecimal? decimal <;> simp

/-- A literal of a declared scalar that is neither null nor a variable becomes null just if it is a
numeral beyond range. -/
theorem substitute_eq_null_iff {raw : String → Coerced Json} {literal : Literal}
    (notVar : ∀ name, literal ≠ .var name) (notNull : literal ≠ .null) :
    substitute raw literal = .ok .null ↔ literal.BeyondRange := by
  have other : ∀ {value : Json}, value ≠ .null → ¬ literal.BeyondRange →
      ((.ok value : Coerced Json) = .ok .null ↔ literal.BeyondRange) :=
    fun present inRange => iff_of_false (fun same => present (Except.ok.inj same)) inRange
  cases literal with
  | null => exact absurd rfl notNull
  | var name => exact absurd rfl (notVar name)
  | int text =>
    rw [substitute, Literal.numberJson?]
    cases fits : (Decimal.intOfText? text).filter Decimal.fitsSigned with
    | some i =>
      refine other (by rintro ⟨⟩) ?_
      rintro (⟨large, -⟩ | -)
      rw [fits] at large
      cases large
    | none =>
      simp only [Except.ok.injEq, getD_ofDecimal_eq_null_iff]
      exact ⟨.int fits, fun | .int _ infinite => infinite⟩
  | float text =>
    rw [substitute, Literal.floatJson?, Except.ok.injEq, getD_ofDecimal_eq_null_iff]
    exact ⟨.float, fun | .float infinite => infinite⟩
  | list items =>
    rw [substitute]
    refine iff_of_false (fun read => ?_) (by rintro ⟨⟩)
    obtain ⟨values, -, same⟩ := bind_eq_ok.1 read
    cases same
  | object fields =>
    rw [substitute]
    refine iff_of_false (fun read => ?_) (by rintro ⟨⟩)
    obtain ⟨members, -, same⟩ := bind_eq_ok.1 read
    cases same
  | bool | string | enum =>
    rw [substitute]
    exact other Json.noConfusion (by rintro ⟨⟩)

variable {schema : Schema} {name declared : String}

/-- At a non-null declared scalar, a literal that is no variable is read as null just if it is a
numeral beyond range. -/
theorem literalAt_eq_null_iff (found : schema.type? name = some (.scalar declared)) {scope : Scope}
    {deeper : TypeRef → Literal → InputPath → Coerced Json} {literal : Literal}
    (notVar : ∀ name, literal ≠ .var name) (path : InputPath) :
    literalAt schema scope deeper (.nonNull (.named name)) literal path = .ok .null ↔
      literal.BeyondRange := by
  by_cases isNull : literal = .null
  · subst isNull
    rw [literalAt]
    exact iff_of_false (by rintro ⟨⟩) (by rintro ⟨⟩)
  rw [literalAt_nonNull notVar isNull, ← @substitute_eq_null_iff scope.raw _ notVar isNull]
  cases literal with
  | null => exact absurd rfl isNull
  | var name => exact absurd rfl (notVar name)
  | _ => simp only [literalAt, found, literalJson_eq_substitute]

/-- At a declared scalar, a JSON value that is no null is read as it is. -/
theorem coerceJson_ne_null (found : schema.type? name = some (.scalar declared)) {levels : Nat}
    {given : Json} {path : InputPath} :
    coerceJson schema levels (.nonNull (.named name)) given path ≠ .ok .null := by
  intro read
  obtain ⟨rest, rfl, step⟩ := coerceJson_eq_ok_iff.1 read
  cases given with
  | null => cases step
  | _ =>
    simp only [jsonAt, found] at step
    cases step

variable {vars : Variables} {supplied : List (String × Literal)}

/-- A null that was read at a non-null declared scalar was a numeral beyond range. -/
theorem ReadFrom.beyondRange_of_null (found : schema.type? name = some (.scalar declared))
    {levels : Nat} (read : ReadFrom schema vars supplied levels (.nonNull (.named name)) .null) :
    ∃ literal, InPlay schema vars supplied literal ∧ literal.BeyondRange := by
  cases read with
  | literal inPlay notVar enough room read =>
    obtain ⟨rest, rfl, step⟩ := coerceLiteral_eq_ok_iff.1 read
    exact ⟨_, inPlay, (literalAt_eq_null_iff found notVar _).1 step⟩
  | constant inPlay enough read =>
    obtain ⟨rest, rfl, step⟩ := coerceConstant_eq_ok_iff.1 read
    exact ⟨_, inPlay, (literalAt_eq_null_iff found (ne_var_of_coerceConstant read) _).1 step⟩
  | json enough read => exact absurd read (coerceJson_ne_null found)
  | absent enough nullable isNull => cases nullable

/-- The arguments of a field of an accepted schema hold null at a non-null declared scalar, at any
depth, only if a numeral beyond range is in play. Where a literal that is no variable is supplied
for an argument of such a type, the argument is null just if the literal is such a numeral. -/
theorem null_at_nonNull_scalar {limit : Nat} {text : String}
    (accepted : Schema.parseWithin limit text = .ok schema) {typeName : String} {type : ObjectType}
    (ofSchema : schema.type? typeName = some (.object type)) {field : FieldDefinition}
    (ofType : field ∈ type.fields) {argument : InputValueDefinition}
    (ofField : argument ∈ field.arguments) (found : schema.type? name = some (.scalar declared))
    (vars : Variables) (supplied : List (String × Literal)) :
    (∀ arguments, coerceArguments schema vars typeName field supplied = .ok arguments →
      ∀ value, (argument.name, value) ∈ arguments →
      ∀ depth, InputHolds schema argument.type value depth (.nonNull (.named name)) .null →
      ∃ literal, InPlay schema vars supplied literal ∧ literal.BeyondRange) ∧
    (argument.type = .nonNull (.named name) →
      ∀ literal, given? supplied argument.name = some literal →
      (∀ other, literal ≠ .var other) →
      (coerceArgument schema vars supplied argument = .ok (some .null) ↔ literal.BeyondRange)) := by
  constructor
  · intro arguments read value member depth holds
    have whole := ReadFrom.of_coerceArguments accepted ofSchema ofType read ofField
      (fun _ _ _ depth _ => Nat.min_le_right depth allLevels) member
    obtain ⟨rest, -, null⟩ := whole.of_holds (Schema.distinctFields_of_parseWithin accepted)
      (Schema.constantDefaults_of_parseWithin accepted) holds
    exact null.beyondRange_of_null found
  · intro scalar literal given notVar
    rw [coerceArgument_of_given given notVar, map_eq_ok, scalar,
      ← literalAt_eq_null_iff found notVar (.root argument.name)]
    simp only [Option.some.injEq, exists_eq_right]
    rfl

/-- Two days, the second of which is beyond range by default. -/
def spanType : InputObjectType where
  name := "Span"
  fields :=
    [{ name := "from", type := .nonNull (.named "Day"), default := none },
      { name := "to", type := .nonNull (.named "Day"), default := some (.float "1e400") }]

/-- A field that takes days and spans. -/
def datedField : FieldDefinition where
  name := "at"
  type := .builtin .id
  arguments :=
    [{ name := "day", type := .nonNull (.named "Day"), default := none },
      { name := "spans", type := .list (.named "Span"), default := none }]

/-- The root of `datedSchema`. -/
def datedRoot : ObjectType where
  name := "Query"
  fields := [datedField]

/-- The text of a schema with days. -/
def datedText : String :=
  "scalar Day input Span {from: Day! to: Day! = 1e400} type Query {at(day: Day! spans: [Span]): ID}"

/-- The schema of `datedText`. -/
def datedSchema : Schema where
  types := BuiltinScalar.all.map .builtin ++
    [.scalar "Day", .inputObject spanType, .object datedRoot]
  queryRoot := "Query"
  mutationRoot := none

/-- The text is that of the schema with dates. -/
theorem parseWithin_datedText : Schema.parseWithin 64 datedText = .ok datedSchema := by
  unfold datedText
  cbv

/-- A span with a day that is left to its default, in a list. -/
theorem null_at_nonNull_scalar_span :
    let supplied : List (String × Literal) :=
      [("day", .string "noon"), ("spans", .list [.object [("from", .int "5")]])]
    let spans : Json := .array [.object [("from", .ofInt 5), ("to", .null)]]
    (coerceArguments datedSchema {} "Query" datedField supplied =
        .ok [("day", .string "noon"), ("spans", spans)] ∧
      InputHolds datedSchema (.list (.named "Span")) spans 2 (.nonNull (.named "Day")) .null) ∧
    ∃ literal, InPlay datedSchema {} supplied literal ∧ literal.BeyondRange := by
  intro supplied spans
  have read : coerceArguments datedSchema {} "Query" datedField supplied =
      .ok [("day", .string "noon"), ("spans", spans)] := by
    rfl
  have holds : InputHolds datedSchema (.list (.named "Span")) spans 2
      (.nonNull (.named "Day")) .null := by
    have last : InputPart datedSchema (.named "Span") (.object [("from", .ofInt 5), ("to", .null)])
        (.nonNull (.named "Day")) .null :=
      @InputPart.field _ _ spanType _ _ _ rfl (.tail _ (.head _)) (.tail _ (.head _))
    exact .deeper (.item (.head _)) (.deeper last .here)
  have root : datedSchema.type? "Query" = some (.object datedRoot) := rfl
  have scalar : datedSchema.type? "Day" = some (.scalar "Day") := rfl
  have declared : datedField.arguments[1] ∈ datedField.arguments := .tail _ (.head _)
  obtain ⟨sources, -⟩ := null_at_nonNull_scalar parseWithin_datedText root (.head _) declared scalar
    {} supplied
  exact ⟨⟨read, holds⟩, sources _ read _ (.tail _ (.head _)) _ holds⟩

/-- A numeral beyond range is refused as a float, but passes for a day that may not be null. -/
theorem dated_takes_null :
    Schema.parseWithin 64 datedText = .ok datedSchema ∧
    coerceArguments datedSchema {} "Query" datedField [("day", .float "1e400")] =
      .ok [("day", .null)] ∧
    InputHolds datedSchema (.nonNull (.named "Day")) .null 0 (.nonNull (.named "Day")) .null ∧
    (∃ cause, coerceLiteral datedSchema {} allLevels (.builtin .float) (.float "1e400") [] =
      .error cause) ∧
    ∃ cause, coerceArguments datedSchema {} "Query" datedField [("day", .null)] = .error cause :=
  ⟨parseWithin_datedText, rfl, .here, ⟨_, rfl⟩, ⟨_, rfl⟩⟩

end Coercion

end GraphQL
