import GraphQL.Proofs.Inputs.Parts
import GraphQL.Proofs.Schemas.Closed

/-!
# Constants

A default is a constant: no variable stands in it. The grammar sees to that wherever a default is
read, and so the defaults of an accepted schema are constants. Where they are, a constant is read in
an operation as it is read on its own, whatever the variables are
(`Coercion.coerceLiteral_eq_coerceConstant`).
-/

set_option autoImplicit false

namespace GraphQL

namespace Literal

/-- No variable stands in a literal. -/
def Constant (literal : Literal) : Prop :=
  ∀ name, ¬ literal.Holds name

/-- The parts of a constant are constants. -/
theorem Constant.of_inside {part whole : Literal} (constant : whole.Constant)
    (inside : part.Inside whole) : part.Constant :=
  fun name holds => constant name (holds.of_inside inside)

/-- A list of constants is a constant. -/
theorem constant_list {items : List Literal} (h : ∀ item ∈ items, item.Constant) :
    (list items).Constant := by
  rintro name (_ | ⟨member, inside⟩)
  exact h _ member name inside

/-- An object of constants is a constant. -/
theorem constant_object {fields : List (String × Literal)}
    (h : ∀ field ∈ fields, field.2.Constant) : (object fields).Constant := by
  rintro name (_ | _ | ⟨member, inside⟩)
  exact h _ member name inside

end Literal

/-- The default of an argument or an input field is a constant, if there is one. -/
def InputValueDefinition.ConstantDefault (value : InputValueDefinition) : Prop :=
  ∀ literal, value.default = some literal → literal.Constant

namespace Schema

/-- The defaults that a schema declares are constants. -/
def ConstantDefaults (schema : Schema) : Prop :=
  ∀ type ∈ schema.types, ∀ value, type.Takes value → value.ConstantDefault

/-- Where the defaults of a schema are constants, so are those of fields of input objects. -/
theorem ConstantDefaults.fieldDefault {schema : Schema} (constants : schema.ConstantDefaults)
    {literal : Literal} (default : schema.FieldDefault literal) : literal.Constant := by
  obtain ⟨name, type, found, field, member, given⟩ := default
  exact constants _ (mem_of_type? found).1 field (.inputField member) literal given

end Schema

namespace Variables

/-- The defaults of variables are constants. -/
def ConstantDefaults (vars : Variables) : Prop :=
  ∀ definition ∈ vars.definitions, ∀ literal, definition.default = some literal → literal.Constant

/-- A variable whose definition is found is defined. -/
theorem mem_of_definition {vars : Variables} {name : String} {definition : VariableDefinition}
    (known : vars.definition name = .ok definition) : definition ∈ vars.definitions := by
  unfold Variables.definition at known
  split at known
  · next found =>
    cases known
    exact List.mem_of_find?_eq_some found
  · cases known

end Variables

namespace Document

open Reader

/-- Constants are read where the nested values are constants. -/
theorem gives_valueWith {nested : Reader Literal} (h : nested.Gives Literal.Constant) :
    (valueWith true nested).Gives Literal.Constant := by
  unfold valueWith
  refine gives_after fun token => ?_
  split
  · exact gives_pure (by rintro name ⟨⟩)
  · exact gives_pure (by rintro name ⟨⟩)
  · exact gives_pure (by rintro name ⟨⟩)
  · split
    · exact gives_pure (by rintro name ⟨⟩)
    split
    · exact gives_pure (by rintro name ⟨⟩)
    split
    · exact gives_pure (by rintro name ⟨⟩)
    · exact gives_pure (by rintro name ⟨⟩)
  · exact gives_failure
  · refine (gives_many h).bind fun items hitems => gives_after fun _ => gives_pure ?_
    exact Literal.constant_list hitems
  · refine (gives_many (P := fun found => ∀ field, found = some field → field.2.Constant) ?_).bind
      fun found hfound => gives_after fun _ => gives_pure (Literal.constant_object ?_)
    · refine gives_after fun name => gives_after fun hasValue => ?_
      split
      · refine h.bind fun value hvalue => gives_pure ?_
        rintro _ ⟨⟩
        exact hvalue
      · refine gives_pure ?_
        rintro _ ⟨⟩
    · intro field member
      obtain ⟨given, listed, same⟩ := List.mem_filterMap.1 member
      exact hfound given listed field same
  · exact gives_failure

/-- A value that is read as a constant is one. -/
theorem gives_value (levels : Nat) : Reader.Gives (value true levels) Literal.Constant := by
  induction levels with
  | zero => exact gives_valueWith gives_failure
  | succ levels ih => exact gives_valueWith ih

/-- The default that is read for an argument or an input field is a constant. -/
theorem gives_constantDefault (levels : Nat) :
    (inputValue levels).Gives InputValueDefinition.ConstantDefault := by
  unfold inputValue
  refine gives_after fun _ => gives_after fun name => ?_
  have withDefault : (typeAndDefault levels).Gives fun found =>
      ∀ literal, found.2 = some literal → literal.Constant := by
    unfold typeAndDefault
    refine gives_after fun _ => gives_after fun type => ?_
    exact (gives_optionally (gives_after fun _ => gives_value levels)).bind
      fun default hdefault => gives_after fun _ => gives_pure hdefault
  exact withDefault.bind fun found hfound => gives_pure hfound

end Document

namespace Schema

variable {schema : Schema}

/-- The defaults of an accepted schema are constants. -/
theorem constantDefaults_of_parseWithin {limit : Nat} {text : String}
    (accepted : parseWithin limit text = .ok schema) : schema.ConstantDefaults := by
  obtain ⟨source, read, -, rfl⟩ :=
    (parseWithin_ok_iff_wellFormedSchema limit text schema).1 accepted
  have carries := Document.carries_of_parse? (fun _ => Reader.gives_any _)
    Document.gives_constantDefault read
  intro type member value takes
  rcases mem_schema_types_iff.1 member with ⟨scalar, rfl⟩ | declared
  · cases takes
  · obtain ⟨definition, ofSource, declares⟩ := List.mem_filterMap.1 declared
    have ofDefinition := carries definition ofSource
    cases definition with
    | object object =>
      cases declares
      cases takes with
      | argument ofType ofField => exact (ofDefinition _ ofType).2 value ofField
    | inputObject object =>
      cases declares
      cases takes with
      | inputField ofType => exact ofDefinition value ofType
    | scalar | enum =>
      cases declares
      cases takes
    | _ => cases declares

end Schema

namespace Coercion

variable {schema : Schema}

/-- Where the defaults of a schema are constants, a constant is read alike in every operation. -/
theorem coerceLiteral_eq_coerceConstant (constants : schema.ConstantDefaults) (vars : Variables)
    (levels : Nat) (type : TypeRef) {literal : Literal} (constant : literal.Constant)
    (path : InputPath) :
    coerceLiteral schema vars levels type literal path =
      coerceConstant schema levels type literal path := by
  induction levels generalizing type literal path with
  | zero => rfl
  | succ levels ih =>
    rw [coerceLiteral, coerceConstant]
    exact literalAt_congr type literal path (fun name holds => absurd holds (constant name))
      (fun name holds => absurd holds (constant name))
      (fun part inside type path => ih type (constant.of_inside inside) path)
      fun part default type path => ih type (constants.fieldDefault default) path

end Coercion

end GraphQL
