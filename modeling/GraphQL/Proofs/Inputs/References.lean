import GraphQL.Proofs.Inputs.Conformance
import GraphQL.Proofs.Inputs.Substitution
import GraphQL.Proofs.Schemas.Closed
import Mathlib.Logic.Relation

/-!
# Types that inputs are read at

Reading an input goes down its type: into lists, past non-null markers, and into the fields of input
objects. In a closed schema each name that is met on the way is that of an enum, an input object or
a declared scalar. So when a value is refused at a name, the name is that of an enum or of an input
object whose values look different (`Coercion.coerceArguments_blames`); no name is ever refused
because there is nothing to read at.
-/

set_option autoImplicit false

namespace GraphQL

open Checks
open Relation (ReflTransGen)

namespace Schema

variable {schema : Schema}

/-- To read a value at a type, values inside it are read at another one. -/
inductive ReadsAt (schema : Schema) : TypeRef → TypeRef → Prop
  | nonNull {inner : TypeRef} : ReadsAt schema (.nonNull inner) inner
  | item {item : TypeRef} : ReadsAt schema (.list item) item
  | field {name : String} {type : InputObjectType} {field : InputValueDefinition}
    (found : schema.type? name = some (.inputObject type)) (member : field ∈ type.fields) :
    ReadsAt schema (.named name) field.type

/-- In a closed schema the fields of input objects have input types. -/
theorem Closed.input_field (closed : schema.Closed) {name : String} {type : InputObjectType}
    (found : schema.type? name = some (.inputObject type)) :
    ∀ field ∈ type.fields, schema.Input field.type := by
  intro field member
  exact closed.inputs _ (mem_of_type? found).1 field (.inputField member)

/-- What is read at inside an input type is an input type. -/
theorem Closed.input_of_readsAt (closed : schema.Closed) {outer inner : TypeRef}
    (input : schema.Input outer) (reads : ReflTransGen schema.ReadsAt outer inner) :
    schema.Input inner := by
  induction reads with
  | refl => exact input
  | tail _ step ih =>
    cases step with
    | nonNull => exact ih
    | item => exact ih
    | field found member => exact closed.input_field found _ member

end Schema

namespace Coercion

variable {schema : Schema} {α Value : Type}

/-- If an error refuses a value at a name, the name is that of an enum or of an input object. -/
def Blames (schema : Schema) (cause : CoercionError) : Prop :=
  ∀ place name text, cause = .invalidValue place (.named name) text →
    (∃ type, schema.type? name = some (.enum type)) ∨
      ∃ type, schema.type? name = some (.inputObject type)

/-- Items are refused at the right names if each of them is. -/
theorem blames_items {item : Value → InputPath → Coerced Json}
    (hitem : ∀ value path, FailsOnly (Blames schema) (item value path)) (path : InputPath) (i : Nat)
    (values : List Value) : FailsOnly (Blames schema) (items item path i values) := by
  induction values generalizing i with
  | nil => exact failsOnly_ok
  | cons value rest ih =>
    exact (hitem value _).bind fun _ => (ih (i + 1)).bind fun _ => failsOnly_ok

/-- A symbol that its enum does not declare is reported as such, not refused at a name. -/
theorem blames_enumSymbol (type : EnumType) (symbol : String) (path : InputPath) :
    FailsOnly (Blames schema) (enumSymbol type symbol path) := by
  unfold enumSymbol
  split
  · exact failsOnly_ok
  · refine failsOnly_error ?_
    rintro _ _ _ ⟨⟩

/-- The fields of an input object are refused at the right names if what is supplied and what
defaults are read as is. -/
theorem blames_inputFields {supplied : InputValueDefinition → InputPath → Coerced (Option Json)}
    {default : TypeRef → Literal → InputPath → Coerced Json} {path : InputPath}
    {fields : List InputValueDefinition}
    (hsupplied : ∀ field ∈ fields, ∀ path, FailsOnly (Blames schema) (supplied field path))
    (hdefault : ∀ field ∈ fields, ∀ literal path,
      FailsOnly (Blames schema) (default field.type literal path)) :
    FailsOnly (Blames schema) (inputFields supplied default path fields) := by
  intro cause failed
  obtain ⟨field, member, failed⟩ := exists_of_inputFields_eq_error failed
  refine FailsOnly.bind (hsupplied field member _) (fun given => ?_) cause failed
  cases given with
  | some value => exact failsOnly_ok
  | none =>
    simp only
    split
    · exact (hdefault field member _ _).map
    · split
      · refine failsOnly_error ?_
        rintro _ _ _ ⟨⟩
      · exact failsOnly_ok

mutual

/-- Where variables are put in as they are, no value is refused. -/
theorem blames_substitute {raw : String → Coerced Json}
    (hraw : ∀ name, FailsOnly (Blames schema) (raw name)) :
    (literal : Literal) → FailsOnly (Blames schema) (substitute raw literal)
  | .var name => by
    rw [substitute]
    exact hraw name
  | .list items => by
    rw [substitute]
    exact (blames_substituteItems hraw items).bind fun _ => failsOnly_ok
  | .object fields => by
    rw [substitute]
    exact (blames_substituteFields hraw fields).bind fun _ => failsOnly_ok
  | .null | .bool _ | .int _ | .float _ | .string _ | .enum _ => by
    rw [substitute]
    exact failsOnly_ok

/-- Items of free literals are refused at the right names if variables are. -/
theorem blames_substituteItems {raw : String → Coerced Json}
    (hraw : ∀ name, FailsOnly (Blames schema) (raw name)) :
    (items : List Literal) → FailsOnly (Blames schema) (substituteItems raw items)
  | [] => by
    rw [substituteItems]
    exact failsOnly_ok
  | item :: rest => by
    rw [substituteItems]
    exact (blames_substitute hraw item).bind fun _ =>
      (blames_substituteItems hraw rest).bind fun _ => failsOnly_ok

/-- Fields of free literals are refused at the right names if variables are. -/
theorem blames_substituteFields {raw : String → Coerced Json}
    (hraw : ∀ name, FailsOnly (Blames schema) (raw name)) :
    (fields : List (String × Literal)) → FailsOnly (Blames schema) (substituteFields raw fields)
  | [] => by
    rw [substituteFields]
    exact failsOnly_ok
  | (name, value) :: rest => by
    rw [substituteFields]
    exact (blames_substitute hraw value).bind fun _ =>
      (blames_substituteFields hraw rest).bind fun _ => failsOnly_ok

end

/-- What is read at an input type with some reader fails only as it may. -/
def BlamesAt (schema : Schema) (read : TypeRef → Value → InputPath → Coerced α) : Prop :=
  ∀ type value path, schema.Input type → FailsOnly (Blames schema) (read type value path)

/-- A value that is refused at a name is refused by an enum or by an input object. -/
theorem blames_invalidValue {name : String} (input : schema.Input (.named name))
    (notScalar : ∀ scalar, schema.type? name ≠ some (.scalar scalar)) (path : InputPath)
    (text : String) : Blames schema (.invalidValue path (.named name) text) := by
  rintro _ _ _ ⟨⟩
  rcases input.named with found | found | ⟨scalar, found⟩
  · exact .inl found
  · exact .inr found
  · exact absurd found (notScalar scalar)

/-- Literals are refused at the right names, if variables and whatever lies inside are. -/
theorem blamesAt_literalAt (closed : schema.Closed) {scope : Scope}
    (htyped : BlamesAt schema fun type name path => scope.typed name type path)
    (hraw : ∀ name, FailsOnly (Blames schema) (scope.raw name))
    {deeper : TypeRef → Literal → InputPath → Coerced Json} (hdeeper : BlamesAt schema deeper) :
    BlamesAt schema (literalAt schema scope deeper) := by
  intro type literal path input
  fun_induction literalAt schema scope deeper type literal path with
  | case1 type name path => exact (htyped type name path input).bind fun _ => failsOnly_ok
  | case3 inner literal path notVar notNull ih => exact ih input
  | case5 item values path =>
    exact (blames_items (fun value path => hdeeper item value path input) path 0 values).bind
      fun _ => failsOnly_ok
  | case9 name path type symbol found notVar notNull => exact blames_enumSymbol type symbol path
  | case10 name path type fields found notVar notNull =>
    have ofField := closed.input_field found
    refine (blames_inputFields ?_ fun field member literal path =>
      hdeeper _ literal path (ofField field member)).bind fun _ => failsOnly_ok
    intro field member path
    unfold literalField
    split
    · exact failsOnly_ok
    · refine (htyped _ _ path (ofField field member)).bind fun given => ?_
      cases given with
      | some value => exact failsOnly_ok
      | none => exact failsOnly_ok
    · exact (hdeeper _ _ path (ofField field member)).bind fun _ => failsOnly_ok
  | case11 name path scalar literal found notVar notNull =>
    rw [literalJson_eq_substitute]
    exact blames_substitute hraw literal
  | case12 name path literal notEnum notObject notScalar notVar notNull =>
    exact failsOnly_error (blames_invalidValue input notScalar path _)
  | case2 | case6 | case8 =>
    refine failsOnly_error ?_
    rintro _ _ _ ⟨⟩
  | case4 | case7 => exact failsOnly_ok

/-- What is read without variables fails only as it may. -/
theorem blamesAt_coerceConstant (closed : schema.Closed) (levels : Nat) :
    BlamesAt schema (coerceConstant schema levels) := by
  have undefined : ∀ name, Blames schema (.undefinedVariable name) := by
    rintro _ _ _ _ ⟨⟩
  induction levels with
  | zero =>
    intro type literal path input
    refine failsOnly_error ?_
    rintro _ _ _ ⟨⟩
  | succ levels ih =>
    exact blamesAt_literalAt closed (fun _ name _ _ => failsOnly_error (undefined name))
      (fun name => failsOnly_error (undefined name)) ih

/-- Values are refused at the right names, if whatever lies inside is. -/
theorem blamesAt_jsonAt (closed : schema.Closed)
    {deeper : TypeRef → Json → InputPath → Coerced Json} (hdeeper : BlamesAt schema deeper)
    {default : TypeRef → Literal → InputPath → Coerced Json} (hdefault : BlamesAt schema default) :
    BlamesAt schema (jsonAt schema deeper default) := by
  intro type value path input
  fun_induction jsonAt schema deeper default type value path with
  | case2 inner value path notNull ih => exact ih input
  | case4 item values path =>
    exact (blames_items (fun value path => hdeeper item value path input) path 0 values).bind
      fun _ => failsOnly_ok
  | case8 name path type symbol found => exact blames_enumSymbol type symbol path
  | case9 name path type members found supplied =>
    have ofField := closed.input_field found
    refine (blames_inputFields ?_ fun field member literal path =>
      hdefault _ literal path (ofField field member)).bind fun _ => failsOnly_ok
    intro field member path
    simp only [supplied]
    split
    · exact (hdeeper _ _ path (ofField field member)).bind fun _ => failsOnly_ok
    · exact failsOnly_ok
  | case11 name path value notEnum notObject notScalar notNull =>
    exact failsOnly_error (blames_invalidValue input notScalar path _)
  | case1 | case5 | case7 =>
    refine failsOnly_error ?_
    rintro _ _ _ ⟨⟩
  | case3 | case6 | case10 => exact failsOnly_ok

/-- Values of variables are refused at the right names. -/
theorem blamesAt_coerceJson (closed : schema.Closed) (levels : Nat) :
    BlamesAt schema (coerceJson schema levels) := by
  induction levels with
  | zero =>
    intro type value path input
    refine failsOnly_error ?_
    rintro _ _ _ ⟨⟩
  | succ levels ih => exact blamesAt_jsonAt closed ih (blamesAt_coerceConstant closed levels)

section Operations

variable {vars : Variables}

/-- An unknown variable is not refused at any name. -/
theorem blames_definition (name : String) : FailsOnly (Blames schema) (vars.definition name) := by
  unfold Variables.definition
  split
  · exact failsOnly_ok
  · refine failsOnly_error ?_
    rintro _ _ _ ⟨⟩

/-- A variable in the place of a value is refused at the right names. -/
theorem blamesAt_typed (closed : schema.Closed) :
    BlamesAt schema fun type name path => vars.typed schema name type path := by
  intro type name path input
  unfold Variables.typed
  refine (blames_definition name).bind fun definition => ?_
  split
  · exact (blamesAt_coerceJson closed _ type _ path input).bind fun _ => failsOnly_ok
  · split
    · exact (blamesAt_coerceConstant closed _ type _ path input).bind fun _ => failsOnly_ok
    · split
      · refine failsOnly_error ?_
        rintro _ _ _ ⟨⟩
      · exact failsOnly_ok

/-- A variable inside a free literal is not refused at any name. -/
theorem blames_raw (name : String) : FailsOnly (Blames schema) (vars.raw name) := by
  unfold Variables.raw
  refine (blames_definition name).bind fun definition => ?_
  split
  · exact failsOnly_ok
  · split
    · exact failsOnly_ok
    · split
      · refine failsOnly_error ?_
        rintro _ _ _ ⟨⟩
      · exact failsOnly_ok

/-- Literals with variables are refused at the right names. -/
theorem blamesAt_coerceLiteral (closed : schema.Closed) (levels : Nat) :
    BlamesAt schema (coerceLiteral schema vars levels) := by
  induction levels with
  | zero =>
    intro type literal path input
    refine failsOnly_error ?_
    rintro _ _ _ ⟨⟩
  | succ levels ih => exact blamesAt_literalAt closed (blamesAt_typed closed) blames_raw ih

/-- An argument is refused at the right names. -/
theorem blames_coerceArgument (closed : schema.Closed) (supplied : List (String × Literal))
    {argument : InputValueDefinition} (input : schema.Input argument.type) :
    FailsOnly (Blames schema) (coerceArgument schema vars supplied argument) := by
  have read : ∀ literal, FailsOnly (Blames schema) (do
      return some (← coerceLiteral schema vars allLevels argument.type literal
        (.root argument.name))) := by
    intro literal
    exact (blamesAt_coerceLiteral closed _ _ literal _ input).bind fun _ => failsOnly_ok
  unfold coerceArgument
  split
  · refine (blamesAt_typed closed _ _ _ input).bind fun given => ?_
    split
    · exact failsOnly_ok
    · exact read _
    · exact failsOnly_ok
  · exact read _
  · exact read _
  · split
    · refine failsOnly_error ?_
      rintro _ _ _ ⟨⟩
    · exact failsOnly_ok

/-- The arguments of a field are refused at the right names. -/
theorem blames_coerceDeclared (closed : schema.Closed) (supplied : List (String × Literal))
    {declared : List InputValueDefinition} (input : ∀ value ∈ declared, schema.Input value.type) :
    FailsOnly (Blames schema) (coerceDeclared schema vars supplied declared) := by
  induction declared with
  | nil => exact failsOnly_ok
  | cons argument rest ih =>
    obtain ⟨own, others⟩ := List.forall_mem_cons.1 input
    unfold coerceDeclared
    refine (blames_coerceArgument closed supplied own).bind fun value => ?_
    refine (ih others).bind fun _ => ?_
    split
    · exact failsOnly_ok
    · exact failsOnly_ok

/-- Where the arguments of a declared field cannot be read, no value is refused at a name but by an
enum or by an input object of that name. -/
theorem coerceArguments_blames (closed : schema.Closed) {type : ObjectType}
    (declared : .object type ∈ schema.types) {field : FieldDefinition} (member : field ∈ type.fields)
    (supplied : List (String × Literal)) :
    FailsOnly (Blames schema) (coerceArguments schema vars type.name field supplied) := by
  unfold coerceArguments
  split
  · refine failsOnly_error ?_
    rintro _ _ _ ⟨⟩
  · refine blames_coerceDeclared closed supplied fun value ofField => ?_
    exact closed.inputs _ declared value (.argument member ofField)

end Operations

end Coercion

end GraphQL
